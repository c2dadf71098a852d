import WbLwm2m.StdObjects
import Mathlib.Data.List.TakeWhile

/-!
# A firmware update

The example implements the Firmware Update object with three callbacks and a few static
variables. The server writes a package URI, which counts as downloaded at once, and then
executes the update: the device says that it has succeeded, waits a second, and restarts, which
forgets all of it.

What a server sees of this is two states and, once the device is up again, no success
(`WbLwm2m.Device.Regular`). And the URI in the buffer is not always the one that has been
accepted: it is cut at 255 bytes and at a zero, and a write that is refused for an empty URI has
emptied the buffer, with the update still to be executed. `WbLwm2m.firmware_update_iff` says
when it is.
-/

namespace WbLwm2m

open Memory Transition

/-! ### The callbacks -/

/-- `wb_lwm2m_fw_state_t` -/
inductive FwState where
  | idle
  | downloading
  | downloaded
  | updating
deriving DecidableEq, Repr

/-- The value of the enumerator. -/
def FwState.value : FwState → Int64
  | .idle => 0
  | .downloading => 1
  | .downloaded => 2
  | .updating => 3

/-- `wb_lwm2m_fw_update_result_t` -/
inductive FwResult where
  | default
  | success
  | notEnoughFlash
  | outOfRam
  | connLost
  | integrityFailed
  | unsupportedPkg
  | invalidUri
  | updateFailed
  | unsupportedProtocol
deriving DecidableEq, Repr

/-- The value of the enumerator. -/
def FwResult.value : FwResult → Int64
  | .default => 0
  | .success => 1
  | .notEnoughFlash => 2
  | .outOfRam => 3
  | .connLost => 4
  | .integrityFailed => 5
  | .unsupportedPkg => 6
  | .invalidUri => 7
  | .updateFailed => 8
  | .unsupportedProtocol => 9

/-- The static variables `fw_state`, `fw_result` and `fw_package_uri`; the last one is a
`char[256]`. -/
structure Fw where
  state : FwState
  result : FwResult
  packageUri : List UInt8

/-- What they are initialised with. -/
def Fw.initial : Fw := ⟨.idle, .default, List.replicate 256 0⟩

/-- The characters of the C string in a buffer. -/
def cString (buf : List UInt8) : List UInt8 := buf.takeWhile (· ≠ 0)

/-- `fw_read_cb` -/
def fwReadCb (fw : Fw) (resId : UInt16) : EspErr × Value :=
  if resId = 3 then (.ok, .integer fw.state.value)
  else if resId = 5 then (.ok, .integer fw.result.value)
  else if resId = 6 then (.ok, .string (ascii "iot-firmware"))
  else if resId = 7 then (.ok, .string (ascii "1.0.0"))
  else if resId = 1 then (.ok, .string (cString fw.packageUri))
  else if resId = 9 then (.ok, .integer 1)
  else (.notFound, .none)

/-- `fw_write_cb`; there may be no value, or no bytes in it. -/
def fwWriteCb (fw : Fw) (resId : UInt16) (value : Option Value) : EspErr × Fw :=
  if resId = 1 then match value with
    | some (.string str) =>
      let uriLen := if 256 ≤ str.length then 255 else str.length
      let packageUri := str.take uriLen ++ 0 :: fw.packageUri.drop (uriLen + 1)
      let fw := { fw with packageUri }
      if fw.packageUri.head? ≠ some (0 : UInt8) then
        let fw := { fw with state := .downloading, result := .default }
        (.ok, { fw with state := .downloaded })
      -- the buffer is left empty
      else (.invalidArg, { fw with result := .invalidUri })
    | _ => (.invalidArg, { fw with result := .invalidUri })
  else (.notSupported, fw)

/-- `fw_update_cb` up to its wait; without an answer, it waits for the restart. -/
def fwUpdateCb (fw : Fw) : Option EspErr × Fw :=
  if fw.state ≠ .downloaded then (some .fail, { fw with result := .updateFailed })
  else
    let fw := { fw with state := .updating }
    let fw := { fw with result := .success }
    (none, { fw with state := .idle })

/-! ### The device -/

/-- **The device**: its variables, and whether a restart is due. -/
structure Device where
  fw : Fw
  restarting : Bool

/-- What happens to it. -/
inductive FwAction where
  | write (resId : UInt16) (value : Option Value)
  | execute
  /-- The wait is over, or the device is restarted for another reason. -/
  | restart

/-- A device that has just started. -/
def Device.boot : Device := ⟨Fw.initial, false⟩

/-- **A step**; while a restart is due, other tasks run. -/
def Device.step (d : Device) : FwAction → Option Device
  | .write resId value => some { d with fw := (fwWriteCb d.fw resId value).2 }
  | .execute => match fwUpdateCb d.fw with
    | (some _, fw) => some { d with fw }
    | (none, fw) => some ⟨fw, true⟩
  | .restart => some Device.boot

/-- **The URI to be installed**: the last one a server has written, if it is not empty, since
an update has been executed or the device has started. -/
def pending (uri : Option (List UInt8)) (_ : Device) (a : FwAction) (_ : Device) :
    Option (List UInt8) :=
  match a with
  | .write 1 (some (.string str)) => if cString str = [] then uri else some str
  | .write _ _ => uri
  | .execute | .restart => none

/-- What a server reads of the object. -/
def Fw.report (fw : Fw) : List (UInt16 × Value) :=
  [(3, .integer fw.state.value), (5, .integer fw.result.value), (6, .string (ascii "iot-firmware")),
    (7, .string (ascii "1.0.0")), (9, .integer 1)]

/-- **What is always so**: an update can be executed exactly if there is a URI to be installed,
no other state is seen but that and the idle one, and success only until the restart. -/
structure Device.Regular (d : Device) (uri : Option (List UInt8)) : Prop where
  state : d.fw.state = if uri.isSome then .downloaded else .idle
  nonempty : ∀ str ∈ uri, cString str ≠ []
  success : d.fw.result = .success → d.restarting = true

/-- **The URI in the buffer is the one to be installed**, if there is one. -/
def Device.Installs (d : Device) (uri : Option (List UInt8)) : Prop :=
  ∀ str ∈ uri, cString d.fw.packageUri = str

/-- **A write that keeps it so**: of a URI of at most 255 bytes, none of them zero, or of an
empty one when there is none to be installed. -/
def KeepsUri (uri : Option (List UInt8)) : FwAction → Prop
  | .write 1 (some (.string str)) =>
    if cString str = [] then uri = none else str.length ≤ 255 ∧ 0 ∉ str
  | _ => True

/-! ### The buffer -/

section Buffer

variable {str rest : List UInt8}

@[simp] theorem cString_nil : cString [] = [] := rfl

/-- The terminator ends the string. -/
theorem cString_append_zero (str rest : List UInt8) : cString (str ++ 0 :: rest) = cString str := by
  rw [cString, List.takeWhile_append]
  split
  · next hlen =>
    rw [List.takeWhile_cons_of_neg (by decide), List.append_nil]
    exact ((List.takeWhile_prefix _).eq_of_length hlen).symm
  · rfl

/-- The string is empty exactly if it begins with a zero. -/
theorem head?_eq_zero_iff (str rest : List UInt8) :
    (str ++ 0 :: rest).head? = some 0 ↔ cString str = [] := by
  rcases str with _ | ⟨b, str⟩
  · simp
  · by_cases hb : b = 0
    · simp [cString, hb]
    · simp [cString, hb]

/-- A string of at most 255 bytes is not cut. -/
theorem cString_take_eq_iff : cString (str.take 255) = str ↔ str.length ≤ 255 ∧ 0 ∉ str := by
  constructor
  · intro h
    have hle := (List.takeWhile_prefix (l := str.take 255) (· ≠ (0 : UInt8))).length_le
    have hlen : (str.take 255).length ≤ 255 := List.length_take_le _ _
    rw [← cString, h] at hle
    have hstr : str.length ≤ 255 := by omega
    rw [List.take_of_length_le hstr] at h
    refine ⟨hstr, fun hmem => ?_⟩
    have hne := List.takeWhile_eq_self_iff.mp h 0 hmem
    simp at hne
  · rintro ⟨hle, hmem⟩
    rw [List.take_of_length_le hle]
    refine List.takeWhile_eq_self_iff.mpr fun b hb => ?_
    simp only [decide_eq_true_eq]
    rintro rfl
    exact hmem hb

theorem cString_take_eq_nil_iff : cString (str.take 255) = [] ↔ cString str = [] := by
  rcases str with _ | ⟨b, str⟩
  · rfl
  · by_cases hb : b = 0
    · simp [cString, hb]
    · simp [cString, hb]

end Buffer

/-- **A write of a string**: the buffer holds its first 255 bytes, and it is accepted exactly if
it is not empty. -/
theorem exists_fwWriteCb (fw : Fw) (str : List UInt8) : ∃ packageUri,
    cString packageUri = cString (str.take 255) ∧
    fwWriteCb fw 1 (some (.string str)) =
      if cString str = [] then (.invalidArg, { fw with packageUri, result := .invalidUri })
      else (.ok, ⟨.downloaded, .default, packageUri⟩) := by
  have htake : str.take (if 256 ≤ str.length then 255 else str.length) = str.take 255 := by
    split
    · rfl
    · rw [List.take_length, List.take_of_length_le (by omega)]
  refine ⟨_, cString_append_zero (str.take 255) (fw.packageUri.drop
    ((if 256 ≤ str.length then 255 else str.length) + 1)), ?_⟩
  have hhead := head?_eq_zero_iff (str.take 255) (fw.packageUri.drop
    ((if 256 ≤ str.length then 255 else str.length) + 1))
  rw [cString_take_eq_nil_iff] at hhead
  rw [fwWriteCb, if_pos rfl]
  dsimp only
  rw [htake]
  by_cases hnil : cString str = []
  · rw [if_pos hnil, if_neg (not_not.mpr (hhead.mpr hnil))]
  · rw [if_neg hnil, if_pos (mt hhead.mp hnil)]

/-- **Any other write** leaves the state and the buffer as they are. -/
theorem exists_fwWriteCb_other (fw : Fw) {resId : UInt16} {value : Option Value}
    (h : ∀ str, ¬(resId = 1 ∧ value = some (.string str))) : ∃ result,
    (fwWriteCb fw resId value).2 = { fw with result } ∧
      (result = fw.result ∨ result = .invalidUri) := by
  unfold fwWriteCb
  split
  · next hres =>
    split
    · next str => exact absurd ⟨hres, rfl⟩ (h str)
    · exact ⟨.invalidUri, rfl, Or.inr rfl⟩
  · exact ⟨fw.result, rfl, Or.inl rfl⟩

theorem pending_other {uri : Option (List UInt8)} {d d' : Device} {resId : UInt16}
    {value : Option Value} (h : ∀ str, ¬(resId = 1 ∧ value = some (.string str))) :
    pending uri d (.write resId value) d' = uri := by
  unfold pending
  split
  · next heq =>
    cases heq
    exact absurd ⟨rfl, rfl⟩ (h _)
  · rfl
  · next heq => cases heq
  · next heq => cases heq

theorem keepsUri_other {uri : Option (List UInt8)} {resId : UInt16} {value : Option Value}
    (h : ∀ str, ¬(resId = 1 ∧ value = some (.string str))) :
    KeepsUri uri (.write resId value) := by
  unfold KeepsUri
  split
  · next heq =>
    cases heq
    exact absurd ⟨rfl, rfl⟩ (h _)
  · trivial

/-! ### Steps -/

/-- **What a step can do.** -/
inductive Device.Effect (d : Device) : FwAction → Device → Prop
  | refused {str packageUri : List UInt8} (hnil : cString str = [])
      (huri : cString packageUri = []) :
    Effect d (.write 1 (some (.string str)))
      { d with fw := { d.fw with packageUri, result := .invalidUri } }
  | accepted {str packageUri : List UInt8} (hne : cString str ≠ [])
      (huri : cString packageUri = cString (str.take 255)) :
    Effect d (.write 1 (some (.string str))) { d with fw := ⟨.downloaded, .default, packageUri⟩ }
  | other {resId : UInt16} {value : Option Value} {result : FwResult}
      (h : ∀ str, ¬(resId = 1 ∧ value = some (.string str)))
      (hresult : result = d.fw.result ∨ result = .invalidUri) :
    Effect d (.write resId value) { d with fw := { d.fw with result } }
  | failed (hstate : d.fw.state ≠ .downloaded) :
    Effect d .execute { d with fw := { d.fw with result := .updateFailed } }
  | executed (hstate : d.fw.state = .downloaded) :
    Effect d .execute ⟨⟨.idle, .success, d.fw.packageUri⟩, true⟩
  | restarted : Effect d .restart Device.boot

theorem Device.effect_of_step {d d' : Device} {a : FwAction} (h : d.step a = some d') :
    d.Effect a d' := by
  cases a with
  | write resId value =>
    obtain rfl := Option.some.inj h
    by_cases hstr : ∃ str, resId = 1 ∧ value = some (.string str)
    · obtain ⟨str, rfl, rfl⟩ := hstr
      obtain ⟨packageUri, huri, hwrite⟩ := exists_fwWriteCb d.fw str
      rw [hwrite]
      split
      · next hnil => exact .refused hnil (huri.trans (cString_take_eq_nil_iff.mpr hnil))
      · next hne => exact .accepted hne huri
    · have hother : ∀ str, ¬(resId = 1 ∧ value = some (.string str)) :=
        fun str hstr' => hstr ⟨str, hstr'⟩
      obtain ⟨result, hwrite, hresult⟩ := exists_fwWriteCb_other d.fw hother
      rw [hwrite]
      exact .other hother hresult
  | execute =>
    rw [Device.step, fwUpdateCb] at h
    by_cases hstate : d.fw.state = .downloaded
    · rw [if_neg (not_not.mpr hstate)] at h
      obtain rfl := Option.some.inj h
      exact .executed hstate
    · rw [if_pos hstate] at h
      obtain rfl := Option.some.inj h
      exact .failed hstate
  | restart =>
    obtain rfl := Option.some.inj h
    exact .restarted

variable {d d' : Device} {uri : Option (List UInt8)} {a : FwAction}

theorem Device.regular_boot : Device.boot.Regular none := ⟨rfl, nofun, nofun⟩

theorem Device.Regular.step (hd : d.Regular uri) (h : d.step a = some d') :
    d'.Regular (pending uri d a d') := by
  cases Device.effect_of_step h with
  | refused hnil =>
    rw [pending, if_pos hnil]
    exact ⟨hd.state, hd.nonempty, nofun⟩
  | accepted hne =>
    rw [pending, if_neg hne]
    refine ⟨rfl, ?_, nofun⟩
    rintro _ ⟨⟩
    exact hne
  | other hother hresult =>
    rw [pending_other hother]
    refine ⟨hd.state, hd.nonempty, fun hsuccess => hd.success ?_⟩
    rcases hresult with rfl | rfl
    · exact hsuccess
    · cases hsuccess
  | failed hstate =>
    have hnone : uri = none := by
      by_contra hne
      rw [hd.state, if_pos (Option.isSome_iff_ne_none.mpr hne)] at hstate
      exact hstate rfl
    refine ⟨?_, nofun, nofun⟩
    rw [hd.state, hnone]
    rfl
  | executed => exact ⟨rfl, nofun, fun _ => rfl⟩
  | restarted => exact Device.regular_boot

/-- **One step and the URI.** -/
theorem installs_step_iff (hreg : d.Regular uri) (hd : d.Installs uri)
    (h : d.step a = some d') : d'.Installs (pending uri d a d') ↔ KeepsUri uri a := by
  cases Device.effect_of_step h with
  | refused hnil huri =>
    rw [pending, KeepsUri, if_pos hnil, if_pos hnil]
    constructor
    · intro hinst
      rcases uri with _ | str'
      · rfl
      · -- what was there is not empty, and the buffer is
        obtain rfl := huri.symm.trans (hinst str' rfl)
        exact absurd rfl (hreg.nonempty [] rfl)
    · rintro rfl
      exact fun _ hmem => nomatch hmem
  | @accepted str packageUri hne huri =>
    rw [pending, KeepsUri, if_neg hne, if_neg hne, ← cString_take_eq_iff, ← huri]
    constructor
    · intro hinst
      exact hinst str rfl
    · rintro hcut _ ⟨⟩
      exact hcut
  | other hother =>
    rw [pending_other hother]
    exact iff_of_true hd (keepsUri_other hother)
  | failed | executed | restarted => exact iff_of_true (fun _ hmem => nomatch hmem) trivial

/-! ### Runs -/

/-- What the example makes of the callbacks. -/
def fwObject : ObjectDef Fw (CtxPtr Unit) :=
  createFirmwareObject (some fun _ _ resId _ fw => (fwReadCb fw resId, fw)) ()

@[simp] theorem readings_fwObject (fw : Fw) : fwObject.readings 0 fw = fw.report := rfl

/-- The values that are read are of the documented types, and can be encoded. -/
theorem documentedReadings_fwObject (fw : Fw) : DocumentedReadings fwObject 0 fw := by
  simp only [DocumentedReadings, readings_fwObject, Fw.report, List.forall_mem_cons]
  exact ⟨rfl, rfl, rfl, rfl, rfl, List.forall_mem_nil _⟩

theorem isSome_tlvValueBytes_fwObject (fp : FloatOps) (fw : Fw) :
    ∀ r ∈ fwObject.readings 0 fw, (tlvValueBytes fp r.2).isSome := by
  simp only [readings_fwObject, Fw.report, List.forall_mem_cons]
  exact ⟨rfl, rfl, rfl, rfl, rfl, List.forall_mem_nil _⟩

/-- **What a server sees of the device**: there are payloads of the object, and each is read as
the report. -/
def Device.Shows (fp : FloatOps) (d : Device) : Prop :=
  (∃ m buf bufSize, (tlvEncodeInstance fp fwObject 0 m buf bufSize d.fw).1.2 ≠ none) ∧
  ∀ m buf bufSize m' n fw',
    tlvEncodeInstance fp fwObject 0 m buf bufSize d.fw = ((m', some n), fw') →
      readByTypes fp 5 m' buf n = some d.fw.report

theorem Device.shows (fp : FloatOps) (d : Device) : d.Shows fp := by
  refine ⟨exists_encodeInstance_iff.mpr (isSome_tlvValueBytes_fwObject fp d.fw), ?_⟩
  intro m buf bufSize m' n fw' h
  have hread := (readByTypes_encodeInstance h).mpr (documentedReadings_fwObject d.fw)
  rwa [readings_fwObject] at hread

/-- **A run of the device.** After every step the object can be read, as the two variables: the
state is the downloaded one exactly if there is a URI to be installed, and the idle one
otherwise, and the result is a success only while a restart is due. The URI in the buffer is
the one to be installed, after every step, exactly if every accepted URI has had at most 255
bytes, none of them zero, and no empty one has been written while there was one to be
installed. -/
theorem firmware_update_iff (fp : FloatOps) (as : List FwAction) :
    Along (withHistory Device.step pending)
        (fun _ _ s' => s'.1.Regular s'.2 ∧ s'.1.Shows fp) (Device.boot, none) as ∧
    (Along (withHistory Device.step pending) (fun _ _ s' => s'.1.Installs s'.2)
        (Device.boot, none) as ↔
      Along (withHistory Device.step pending) (fun s a _ => KeepsUri s.2 a)
        (Device.boot, none) as) := by
  have hregular : ∀ (s : Device × Option (List UInt8)) a s', s.1.Regular s.2 →
      withHistory Device.step pending s a = some s' → s'.1.Regular s'.2 := by
    intro s a s' hs h
    obtain ⟨hstep, huri⟩ := withHistory_eq_some.mp h
    rw [huri]
    exact hs.step hstep
  constructor
  · exact along_of_invariant hregular (fun s a s' hs h => ⟨hregular s a s' hs h, s'.1.shows fp⟩)
      Device.regular_boot as
  · refine along_state_iff hregular ?_ Device.regular_boot (fun _ h => nomatch h) as
    intro s a s' hs hinst h
    obtain ⟨hstep, huri⟩ := withHistory_eq_some.mp h
    rw [huri]
    exact installs_step_iff hs hinst hstep

end WbLwm2m
