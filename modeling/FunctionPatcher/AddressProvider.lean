import FunctionPatcher.State

/-!
# The handle cache (`FunctionAddressProvider`)

`rplTable` is the list `rpl_handles` is initialised with. Only the handles of
its entries change afterwards, so a `FunctionAddressProvider` carries that its
entries are still those of the table.
-/

namespace FunctionPatcher

def rplTable : List (FunctionReplacementLibraryType × String) :=
  [(.avm, "avm.rpl"), (.camera, "camera.rpl"), (.coreinit, "coreinit.rpl"), (.dc, "dc.rpl"),
   (.dmae, "dmae.rpl"), (.drmapp, "drmapp.rpl"), (.erreula, "erreula.rpl"), (.gx2, "gx2.rpl"),
   (.h264, "h264.rpl"), (.lzma920, "lzma920.rpl"), (.mic, "mic.rpl"), (.nfc, "nfc.rpl"),
   (.nioProf, "nio_prof.rpl"), (.nlibcurl, "nlibcurl.rpl"), (.nlibnss, "nlibnss.rpl"),
   (.nlibnss2, "nlibnss2.rpl"), (.nnAc, "nn_ac.rpl"), (.nnAcp, "nn_acp.rpl"),
   (.nnAct, "nn_act.rpl"), (.nnAoc, "nn_aoc.rpl"), (.nnBoss, "nn_boss.rpl"),
   (.nnCcr, "nn_ccr.rpl"), (.nnCmpt, "nn_cmpt.rpl"), (.nnDlp, "nn_dlp.rpl"),
   (.nnEc, "nn_ec.rpl"), (.nnFp, "nn_fp.rpl"), (.nnHai, "nn_hai.rpl"),
   (.nnHpad, "nn_hpad.rpl"), (.nnIdbe, "nn_idbe.rpl"), (.nnNdm, "nn_ndm.rpl"),
   (.nnNets2, "nn_nets2.rpl"), (.nnNfp, "nn_nfp.rpl"), (.nnNim, "nn_nim.rpl"),
   (.nnOlv, "nn_olv.rpl"), (.nnPdm, "nn_pdm.rpl"), (.nnSave, "nn_save.rpl"),
   (.nnSl, "nn_sl.rpl"), (.nnSpm, "nn_spm.rpl"), (.nnTemp, "nn_temp.rpl"),
   (.nnUds, "nn_uds.rpl"), (.nnVctl, "nn_vctl.rpl"), (.nsysccr, "nsysccr.rpl"),
   (.nsyshid, "nsyshid.rpl"), (.nsyskbd, "nsyskbd.rpl"), (.nsysnet, "nsysnet.rpl"),
   (.nsysuhs, "nsysuhs.rpl"), (.nsysuvd, "nsysuvd.rpl"), (.ntag, "ntag.rpl"),
   (.padscore, "padscore.rpl"), (.procUi, "proc_ui.rpl"), (.sndcore2, "sndcore2.rpl"),
   (.snduser2, "snduser2.rpl"), (.sndCore, "snd_core.rpl"), (.sndUser, "snd_user.rpl"),
   (.swkbd, "swkbd.rpl"), (.sysapp, "sysapp.rpl"), (.tcl, "tcl.rpl"), (.tve, "tve.rpl"),
   (.uac, "uac.rpl"), (.uacRpl, "uac_rpl.rpl"), (.usbMic, "usb_mic.rpl"), (.uvc, "uvc.rpl"),
   (.uvd, "uvd.rpl"), (.vpad, "vpad.rpl"), (.vpadbase, "vpadbase.rpl"), (.zlib125, "zlib125.rpl")]

structure FunctionAddressProvider where
  rplHandles : List RplHandling
  table : rplHandles.map (fun e => (e.library, e.rplname)) = rplTable

namespace FunctionAddressProvider

def initial : FunctionAddressProvider where
  rplHandles := rplTable.map fun e => ⟨e.1, e.2, 0⟩
  table := by rw [List.map_map]; exact List.map_id _

def mapHandles (f : RplHandling → Word) (P : FunctionAddressProvider) : FunctionAddressProvider where
  rplHandles := P.rplHandles.map fun e => { e with handle := f e }
  table := by rw [List.map_map]; exact P.table

def entryOf (P : FunctionAddressProvider) (library : FunctionReplacementLibraryType) : Option RplHandling :=
  P.rplHandles.find? fun e => e.library = library

def setHandle (P : FunctionAddressProvider) (library : FunctionReplacementLibraryType) (h : Word) :
    FunctionAddressProvider :=
  P.mapHandles fun e => if e.library = library then h else e.handle

def resetHandles (P : FunctionAddressProvider) : FunctionAddressProvider := P.mapHandles fun _ => 0

def getTypeForHandle (P : FunctionAddressProvider) (handle : Word) : FunctionReplacementLibraryType :=
  match P.rplHandles.find? fun e => e.handle = handle with
  | some e => e.library
  | none => .other

/-- Only the first entry with the handle is reset. -/
def resetHandle (P : FunctionAddressProvider) (handle : Word) : FunctionAddressProvider :=
  match P.rplHandles.find? fun e => e.handle = handle with
  | some e => P.setHandle e.library 0
  | none => P

end FunctionAddressProvider

end FunctionPatcher
