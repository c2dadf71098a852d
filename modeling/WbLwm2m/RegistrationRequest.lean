import WbLwm2m.Lib.Query
import WbLwm2m.Log
import WbLwm2m.Registration

/-!
# The registration request

A registration is a post to `/rd` with four pairs in the query: endpoint name, lifetime,
binding and version. Between the configuration and the request lie three buffers: the
binding and the version are copied into a `char[8]`, and the path is printed into a
`char[256]`; what does not fit is cut, and nobody asks. Nor is anything escaped.
`WbLwm2m.registration_faithful_iff` says for which configurations the request is the one
that is meant.

The answer to a registration is told by the path of the request: the handler compares it
with `/rd`. The path that has been posted has a query, so that
`WbLwm2m.registration_never_recognised`: a client whose CoAP client reports the path it
has been given takes no answer for the one it waits for.
-/

namespace WbLwm2m

open World Transition

variable {σ κ ψ : Type} {w w' : World σ κ ψ} {a : Action σ κ} {fp : FloatOps}

/-! ### What should be sent -/

section Configured

variable (config : ClientConfig ψ)

/-- The lifetime that is configured, or the default. -/
def ClientConfig.lifetimeSet : UInt32 := if config.lifetime > 0 then config.lifetime else 86400

/-- The binding that is configured, or the default. -/
def ClientConfig.bindingSet : Text := config.binding.getD (ascii "U")

/-- The version that is configured, or the default. -/
def ClientConfig.versionSet : Text := config.lwm2mVersion.getD (ascii "1.0")

/-- The pairs of a registration. -/
def requestPairs (name : Text) (lifetime : UInt32) (binding version : Text) :
    List (Text × Text) :=
  [(ascii "ep", name), (ascii "lt", Decimal.ofNat lifetime.toNat), (ascii "b", binding),
    (ascii "lwm2m", version)]

/-- A path, split at `?`, at `&` and at the first `=` of each part. -/
def readRequest (path : Text) : Option (Text × List (Text × Option Text)) :=
  Query.read 0x3F 0x26 0x3D path

/-- The path of a registration, before it is cut. -/
def requestText (name : Text) (lifetime : UInt32) (binding version : Text) : Text :=
  Query.write 0x3F 0x26 0x3D (ascii "/rd") (requestPairs name lifetime binding version)

/-- What the client prints into the path, before it is cut. -/
def regText (c : Client σ κ ψ) : Text :=
  requestText c.endpointName c.lifetime c.binding c.lwm2mVersion

/-- **The request is faithful**: it is not cut, and it is read as `/rd` with the settings
that have been configured. -/
def FaithfulRequest (c : Client σ κ ψ) (path : Text) : Prop :=
  path = regText c ∧ ∃ name, config.endpointName = some name ∧
    readRequest path = some (ascii "/rd", Query.readable
      (requestPairs name config.lifetimeSet config.bindingSet config.versionSet))

/-- Neither `?` nor `&` occurs. -/
def Unseparated (text : Text) : Prop := 0x3F ∉ text ∧ 0x26 ∉ text

instance : DecidablePred Unseparated := fun text =>
  inferInstanceAs (Decidable (0x3F ∉ text ∧ 0x26 ∉ text))

/-- **The settings that can be sent.** -/
structure Sendable (name : Text) : Prop where
  binding_le : config.bindingSet.length ≤ 7
  version_le : config.versionSet.length ≤ 7
  text_le : (requestText name config.lifetimeSet config.bindingSet
    config.versionSet).length ≤ 255
  name : Unseparated name
  binding : Unseparated config.bindingSet
  version : Unseparated config.versionSet

end Configured

/-! ### Reading it back -/

theorem regPath_eq (c : Client σ κ ψ) : regPath c = printText 256 (regText c) := by
  rw [regPath, regText]
  refine congrArg (printText 256) ?_
  simp [requestText, requestPairs, Query.write, Query.writePair, List.intercalate_cons_cons,
    ascii]

theorem unseparated_ofNat (n : ℕ) : Unseparated (Decimal.ofNat n) :=
  ⟨fun h => absurd (Decimal.mem_ofNat h).2 (by decide),
    fun h => absurd (Decimal.mem_ofNat h).1 (by decide)⟩

theorem keyed_requestPairs (name : Text) (lifetime : UInt32) (binding version : Text) :
    Query.Keyed 0x3F 0x26 0x3D (ascii "/rd") (requestPairs name lifetime binding version) := by
  refine ⟨by decide, by decide, by decide, ?_, List.cons_ne_nil _ _⟩
  simp only [requestPairs, List.forall_mem_cons]
  refine ⟨by decide, by decide, by decide, by decide, ?_⟩
  exact fun _ h => absurd h (List.not_mem_nil)

theorem length_requestText (name : Text) (lifetime : UInt32) (binding version : Text) :
    (requestText name lifetime binding version).length =
      21 + name.length + (Decimal.ofNat lifetime.toNat).length + binding.length +
        version.length := by
  simp [requestText, requestPairs, Query.write, Query.writePair, List.intercalate_cons_cons,
    ascii]
  omega

theorem init_settings {config : ClientConfig ψ} {c : Client σ κ ψ} (h : init config = some c) :
    config.endpointName = some c.endpointName ∧ c.lifetime = config.lifetimeSet ∧
      c.binding = printText 8 config.bindingSet ∧
      c.lwm2mVersion = printText 8 config.versionSet := by
  rw [init] at h
  split at h
  · next hserver hname =>
    obtain rfl := Option.some.inj h
    exact ⟨hname, rfl, rfl, rfl⟩
  · cases h

theorem printText_of_le {size : ℕ} {text : Text} (h : text.length ≤ size - 1) :
    printText size text = text :=
  List.take_of_length_le h

theorem length_printText (size : ℕ) (text : Text) :
    (printText size text).length = min (size - 1) text.length :=
  List.length_take

/-- **A request is faithful exactly if the settings can be sent.** -/
theorem faithful_iff_sendable {config : ClientConfig ψ} {c : Client σ κ ψ}
    (hinit : init config = some c) :
    FaithfulRequest config c (regPath c) ↔ Sendable config c.endpointName := by
  obtain ⟨hname, hlifetime, hbinding, hversion⟩ := init_settings hinit
  have hkeyed := keyed_requestPairs c.endpointName config.lifetimeSet config.bindingSet
    config.versionSet
  constructor
  · rintro ⟨hwhole, name, hname', hread⟩
    obtain rfl := Option.some.inj (hname.symm.trans hname')
    have htext : regPath c =
        requestText c.endpointName config.lifetimeSet config.bindingSet config.versionSet :=
      Query.eq_write_of_read hread
    -- what is read has the length of the whole text, so that nothing has been cut
    have hlength : (regText c).length = (requestText c.endpointName config.lifetimeSet
        config.bindingSet config.versionSet).length := by
      rw [← hwhole, htext]
    have hcut : (regPath c).length ≤ 255 := by
      rw [regPath_eq, length_printText]
      exact Nat.min_le_left _ _
    rw [regText, length_requestText, length_requestText, hlifetime, hbinding, hversion,
      length_printText, length_printText] at hlength
    rw [readRequest, htext, requestText] at hread
    have hvalues := (Query.read_write_iff hkeyed).mp hread
    simp only [requestPairs, List.forall_mem_cons] at hvalues
    refine ⟨by omega, by omega, ?_, hvalues.1, hvalues.2.2.1, hvalues.2.2.2.1⟩
    rw [← htext]
    exact hcut
  · intro h
    have htext : regText c =
        requestText c.endpointName config.lifetimeSet config.bindingSet config.versionSet := by
      rw [regText, hlifetime, hbinding, hversion, printText_of_le h.binding_le,
        printText_of_le h.version_le]
    have hwhole : regPath c = regText c := by
      rw [regPath_eq]
      exact printText_of_le (htext ▸ h.text_le)
    refine ⟨hwhole, c.endpointName, hname, ?_⟩
    rw [readRequest, hwhole, htext, requestText]
    refine (Query.read_write_iff hkeyed).mpr ?_
    simp only [requestPairs, List.forall_mem_cons]
    refine ⟨h.name, unseparated_ofNat _, h.binding, h.version, ?_⟩
    exact fun _ h => absurd h (List.not_mem_nil)

/-! ### Every registration of a run -/

/-- Every registration goes to the path that the settings of the client give. -/
theorem path_of_registration {config : ClientConfig ψ} {c : Client σ κ ψ}
    {as : List (Action σ κ)} (hinit : init config = some c)
    (hrun : run (step fp) (World.initial c) as = some w) {h : Option ℕ} {path payload : Text}
    {err : EspErr} (hpost : .coapPost h path (some payload) .linkFormat err ∈ w.log) :
    path = regPath c := by
  have hposts : w.client.asMade = c ∧ ∀ h path payload err,
      .coapPost h path (some payload) .linkFormat err ∈ w.log → path = regPath c := by
    refine run_invariant_all (P := fun w => w.client.asMade = c ∧ ∀ h path payload err,
        .coapPost h path (some payload) .linkFormat err ∈ w.log → path = regPath c)
      (fun s a s' hs hstep => ?_)
      ⟨asMade_init hinit, fun _ _ _ _ hmem => absurd hmem (List.not_mem_nil)⟩ hrun
    have heffect := effect_of_step hstep
    refine ⟨(asMade_of_effect heffect).trans hs.1, fun h path payload err hmem => ?_⟩
    rcases (made_of_effect heffect).mem hmem with ⟨-, hpath, -⟩ | hmem
    · rw [hpath, ← hs.1]
      rfl
    · exact hs.2 h path payload err hmem
  exact hposts.2 h path payload err hpost

/-- **A registration is faithful exactly if the settings can be sent**: binding and version
have at most 7 characters and the whole path at most 255, and neither `?` nor `&` occurs in
the endpoint name, the binding or the version. -/
theorem registration_faithful_iff {config : ClientConfig ψ} {c : Client σ κ ψ}
    {as : List (Action σ κ)} (hinit : init config = some c)
    (hrun : run (step fp) (World.initial c) as = some w) {h : Option ℕ} {path payload : Text}
    {err : EspErr} (hpost : .coapPost h path (some payload) .linkFormat err ∈ w.log) :
    FaithfulRequest config c path ↔ Sendable config c.endpointName := by
  rw [path_of_registration hinit hrun hpost]
  exact faithful_iff_sendable hinit

/-- The run that sends a registration. -/
def connectActions {σ κ : Type} : List (Action σ κ) :=
  [.start true .ok, .event .connected .ok true]

/-- The small client can be registered. -/
theorem registration_faithful_iff_sample : ∃ w h path payload err,
    run (step ieee754) (World.initial sampleClient) connectActions = some w ∧
      .coapPost h path (some payload) .linkFormat err ∈ w.log ∧
      FaithfulRequest sampleConfig sampleClient path := by
  obtain ⟨w, hrun⟩ : ∃ w, run (step ieee754) (World.initial sampleClient) connectActions =
    some w := ⟨_, rfl⟩
  have hpost : .coapPost (some 0) (regPath sampleClient) (some []) .linkFormat .ok ∈ w.log := by
    obtain rfl := Option.some.inj hrun
    exact List.mem_cons_self
  have hsendable : Sendable sampleConfig sampleClient.endpointName :=
    ⟨by decide, by decide, by decide, by decide, by decide, by decide⟩
  exact ⟨w, _, _, _, _, hrun, hpost,
    (registration_faithful_iff init_sampleConfig hrun hpost).mpr hsendable⟩

/-- An endpoint name of 230 characters. -/
def longNameConfig : ClientConfig Unit :=
  { sampleConfig with endpointName := some (List.replicate 230 0x61) }

/-- **A long endpoint name is sent with a part of the version missing.** -/
theorem long_name_not_faithful : ∃ (c : Client Unit Unit Unit) (w : World Unit Unit Unit)
    (h : Option ℕ) (path payload : Text) (err : EspErr), init longNameConfig = some c ∧
      run (step ieee754) (World.initial c) connectActions = some w ∧
      .coapPost h path (some payload) .linkFormat err ∈ w.log ∧
      ¬FaithfulRequest longNameConfig c path := by
  obtain ⟨c, hinit⟩ : ∃ c : Client Unit Unit Unit, init longNameConfig = some c := ⟨_, rfl⟩
  obtain ⟨w, hrun⟩ : ∃ w, run (step ieee754) (World.initial c) connectActions = some w := by
    obtain rfl := Option.some.inj hinit
    exact ⟨_, rfl⟩
  have hpost : .coapPost (some 0) (regPath c) (some []) .linkFormat .ok ∈ w.log := by
    obtain rfl := Option.some.inj hinit
    obtain rfl := Option.some.inj hrun
    exact List.mem_cons_self
  refine ⟨c, w, _, _, _, _, hinit, hrun, hpost, fun hfaithful => ?_⟩
  have hle := ((faithful_iff_sendable hinit).mp hfaithful).text_le
  have hname : List.replicate 230 0x61 = c.endpointName := Option.some.inj (init_settings hinit).1
  rw [length_requestText, ← hname, List.length_replicate] at hle
  exact absurd hle (by decide)

/-! ### The answer -/

/-- The path that is posted is not the path of the answers that are looked at. -/
theorem regPath_ne (c : Client σ κ ψ) : regPath c ≠ ascii "/rd" := by
  intro h
  -- its fourth character is the question mark
  have hmark : (regPath c)[3]? = (ascii "/rd")[3]? := congrArg (fun path => path[3]?) h
  have hfourth : (regPath c)[3]? = some 0x3F := rfl
  exact absurd (hfourth.symm.trans hmark) (by decide)

/-- **The client recognises the answer to its registration**: it leaves registering, for
registered with a location or for error, and says so. -/
def Recognised (code : RespCode) (w w' : World σ κ ψ) : Prop :=
  if code = .created then
    w'.client.state = .registered ∧ w'.client.regLocation ≠ [] ∧
      dispatched w'.log = heard w.client.eventHandler [.registered] ++ dispatched w.log
  else
    w'.client.state = .error ∧
      dispatched w'.log = heard w.client.eventHandler [.regFailed] ++ dispatched w.log

theorem not_recognised {code : RespCode} (h : w'.client.state = .registering) :
    ¬Recognised code w w' := by
  rw [Recognised]
  split
  · rintro ⟨hstate, -⟩
    exact absurd (h.symm.trans hstate) (by decide)
  · rintro ⟨hstate, -⟩
    exact absurd (h.symm.trans hstate) (by decide)

/-- A client that is registering and hears of another path stays as it is. -/
theorem state_of_other_path {resp : CoapResponse} {err : EspErr} {created : Bool}
    (h : Effect w (.event (.response (some resp)) err created) w')
    (hw : w.client.state = .registering) (hpath : resp.requestPath ≠ some (ascii "/rd")) :
    w'.client.state = .registering := by
  cases h with
  | updateRefused ha => exact (updating_of_call ha).elim
  | updateSent ha => exact (updating_of_call ha).elim
  | stopWaits _ _ ha => exact (stopping_of_call ha).elim
  | ignored => exact hw
  | registered hstate h => exact absurd h hpath
  | rejected hstate h => exact absurd h hpath
  | updated hstate => exact absurd (hw.symm.trans hstate) (by decide)
  | updateRejected hstate => exact absurd (hw.symm.trans hstate) (by decide)
  | deregistered hstate => exact absurd (hw.symm.trans hstate) (by decide)

/-- Every client can be brought to registering. -/
theorem exists_registering {config : ClientConfig ψ} {c : Client σ κ ψ}
    (hinit : init config = some c) : ∃ w, run (step fp) (World.initial c) connectActions = some w ∧
      w.phase = .running ∧ liveHandles w.log = [0] ∧ w.client.state = .registering ∧
      .coapPost (some 0) (regPath c) (some []) .linkFormat .ok ∈ w.log := by
  rw [init] at hinit
  split at hinit
  · obtain rfl := Option.some.inj hinit
    cases config.eventHandler with
    | false => exact ⟨_, rfl, rfl, rfl, rfl, List.mem_cons_self⟩
    | true => exact ⟨_, rfl, rfl, rfl, rfl, List.mem_cons_self⟩
  · cases hinit

/-- **The answer to a registration is never recognised.** Whatever the configuration, there
is a run in which the client is registering, its post has been accepted, and any answer to
it can be handled; and in every run, while the client is registering, the answer to a
registration that it has posted, reported under the path that was posted, leaves it
registering. -/
theorem registration_never_recognised (fp : FloatOps) {config : ClientConfig ψ}
    {c : Client σ κ ψ} (hinit : init config = some c) :
    (∃ as w h path payload, run (step fp) (World.initial c) as = some w ∧
      w.client.state = .registering ∧
      .coapPost h path (some payload) .linkFormat .ok ∈ w.log ∧
      ∀ resp err created, (step fp w (.event (.response (some resp)) err created)).isSome) ∧
    ∀ (as : List (Action σ κ)) (w w' : World σ κ ψ) (h : Option ℕ) (path payload : Text)
      (err err' : EspErr) (code : RespCode) (locationPath : Text) (created : Bool),
      run (step fp) (World.initial c) as = some w → w.client.state = .registering →
      .coapPost h path (some payload) .linkFormat err ∈ w.log →
      step fp w (.event (.response (some ⟨some path, code, locationPath⟩)) err' created) =
        some w' →
      w'.client.state = .registering ∧ ¬Recognised code w w' := by
  constructor
  · obtain ⟨w, hrun, hphase, hlive, hstate, hpost⟩ := exists_registering hinit
    refine ⟨connectActions, w, some 0, regPath c, [], hrun, hstate, hpost,
      fun resp err created => ?_⟩
    have henabled : ¬(w.phase = .destroyed ∨ liveHandles w.log = []) := by simp [hphase, hlive]
    rw [step, if_neg henabled]
    rfl
  · intro as w w' h path payload err err' code locationPath created hrun hstate hpost hstep
    have hkept : w'.client.state = .registering := by
      refine state_of_other_path (effect_of_step hstep) hstate fun heq => ?_
      exact regPath_ne c ((path_of_registration hinit hrun hpost).symm.trans
        (Option.some.inj heq))
    exact ⟨hkept, not_recognised hkept⟩

/-- The small client does not recognise the answer 4.03. -/
theorem registration_never_recognised_sample : ∃ (as : List (Action Unit Unit))
    (w w' : World Unit Unit Unit) (path : Text) (code : RespCode),
    run (step ieee754) (World.initial sampleClient) as = some w ∧
      step ieee754 w (.event (.response (some ⟨some path, code, []⟩)) .ok true) = some w' ∧
      w'.client.state = .registering ∧ ¬Recognised code w w' := by
  obtain ⟨⟨as, w, h, path, payload, hrun, hstate, hpost, hstep⟩, hnever⟩ :=
    registration_never_recognised ieee754 init_sampleConfig
  obtain ⟨w', hw'⟩ := Option.isSome_iff_exists.mp (hstep ⟨some path, .other 0x83, []⟩ .ok true)
  exact ⟨as, w, w', path, _, hrun, hw', hnever as w w' h path payload .ok .ok (.other 0x83) [] true
    hrun hstate hpost hw'⟩

/-- **The answer 2.01 to a registration is dropped**, when it is reported under the path of
the request. -/
theorem created_not_recognised : ∃ w w' h path payload,
    run (step ieee754) (World.initial sampleClient) connectActions = some w ∧
      w.client.state = .registering ∧
      .coapPost h path (some payload) .linkFormat .ok ∈ w.log ∧
      step ieee754 w (.event (.response (some ⟨some path, .created, ascii "/rd/1"⟩)) .ok true) =
        some w' ∧ w'.client.state = .registering ∧ ¬Recognised .created w w' := by
  obtain ⟨w, hrun, hphase, hlive, hstate, hpost⟩ := exists_registering init_sampleConfig
  obtain ⟨w', hstep⟩ : ∃ w', step ieee754 w
      (.event (.response (some ⟨some (regPath sampleClient), .created, ascii "/rd/1"⟩)) .ok true) =
        some w' := by
    have henabled : ¬(w.phase = .destroyed ∨ liveHandles w.log = []) := by simp [hphase, hlive]
    rw [step, if_neg henabled]
    exact ⟨_, rfl⟩
  have hkept : w'.client.state = .registering := by
    refine state_of_other_path (effect_of_step hstep) hstate fun heq => ?_
    exact regPath_ne _ (Option.some.inj heq)
  exact ⟨w, w', _, _, _, hrun, hstate, hpost, hstep, hkept, not_recognised hkept⟩

end WbLwm2m
