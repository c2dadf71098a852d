import WbLwm2m.SenmlRecord
import Mathlib.Data.List.Forall2

/-!
# The instance encoder refines the single-resource encoder

The loop of `wb_lwm2m_encode_senml_json_instance` writes a record for every reading, and
its invariant is the text behind the buffer's start: the opening bracket, the records so
far, and at most one more byte, the terminator of the last print. From the step of the
loop, forward and backward, follow what it has written when it returns
(`WbLwm2m.encodeSenmlJsonInstance_some`) and when it returns
(`WbLwm2m.encodeSenmlJsonInstance_of_lt`).

The result, `WbLwm2m.senml_instance_refines_single`, compares this text with the texts
of the single-resource encoder: it is their join, `WbLwm2m.senmlJoin`, which removes
brackets and repeated base names from the texts alone.
-/

namespace WbLwm2m

open Memory

variable {fp : FloatOps} {σ κ : Type} {obj : ObjectDef σ κ} {instId : UInt16} {buf bufSize : ℕ}

/-! ### A record at a time -/

/-- A value field that fits is printed behind what has been written. -/
theorem senmlWriteValue_of_lt {v : Value} {val : List UInt8} (hval : senmlValueText fp v = some val)
    (m : Mem) {acc z : List UInt8} (hz : z.length ≤ 1) (hfit : acc.length + val.length < bufSize) :
    senmlWriteValue fp v (store m buf (acc ++ z)) buf bufSize acc.length =
      (store m buf (acc ++ val ++ [0]), some val.length) := by
  simp only [senmlWriteValue, hval, snprintf_store_append m buf hz hfit]
  rw [if_neg (by omega)]

/-- **A record that fits is printed** behind what has been written, with the base name
exactly when it starts at offset 1. -/
theorem senmlWriteRecord_of_lt {objId resId : UInt16} {v : Value} {mem : List UInt8}
    (hmem : senmlMember fp v = some mem) (m : Mem) {acc z rec : List UInt8} (hz : z.length ≤ 1)
    (hrec : rec = (SenmlRecord.mk
      (if acc.length = 1 then some (senmlBaseName objId instId) else none) (fmtU16 resId)
      mem).render)
    (hfit : (acc ++ rec).length < bufSize) :
    senmlWriteRecord fp objId instId resId v (store m buf (acc ++ z)) buf bufSize acc.length =
      (store m buf (acc ++ rec ++ [0]), some (acc ++ rec).length) := by
  have hval : senmlValueText fp v = some (ascii "," ++ mem ++ ascii "\x7d") := by
    rw [senmlValueText_eq, hmem, Option.map_some]
  rw [← senmlRecordHead_append] at hrec
  obtain ⟨head, hhead⟩ : ∃ t, senmlRecordHead acc.length objId instId resId = t := ⟨_, rfl⟩
  generalize ascii "," ++ mem ++ ascii "\x7d" = val at hval hrec
  rw [hhead] at hrec
  subst hrec
  rw [← List.append_assoc, List.length_append] at hfit
  have hlt : acc.length + head.length < bufSize := by
    rw [List.length_append] at hfit
    omega
  have hvalue : senmlWriteValue fp v (store m buf (acc ++ head ++ [0])) buf bufSize
      (acc ++ head).length = (store m buf (acc ++ head ++ val ++ [0]), some val.length) :=
    senmlWriteValue_of_lt hval m le_rfl hfit
  rw [List.length_append] at hvalue
  rw [senmlWriteRecord, hhead, snprintf_store_append m buf hz hlt]
  simp only [hvalue]
  rw [if_neg (by omega)]
  simp [Nat.add_assoc]

/-- A record without a value member, or one that does not fit, is a failure. -/
theorem senmlWriteRecord_eq_none {objId resId : UInt16} {v : Value} (m : Mem) {offset : ℕ}
    (h : ∀ mem, senmlMember fp v = some mem → bufSize ≤ offset + (SenmlRecord.mk
      (if offset = 1 then some (senmlBaseName objId instId) else none) (fmtU16 resId)
      mem).render.length) :
    (senmlWriteRecord fp objId instId resId v m buf bufSize offset).2 = none := by
  rw [senmlWriteRecord]
  simp only [snprintf_snd]
  by_cases hhead : bufSize - offset ≤ (senmlRecordHead offset objId instId resId).length
  · rw [if_pos hhead]
  -- the header fits, so that it is the value field that does not
  · rw [if_neg hhead, senmlWriteValue, senmlValueText_eq]
    cases hmem : senmlMember fp v with
    | none => rfl
    | some mem =>
      have hlen := h mem hmem
      rw [← senmlRecordHead_append, List.length_append] at hlen
      simp only [Option.map_some, snprintf_snd]
      rw [if_pos (by omega)]

/-! ### The loop -/

/-- A reading and the text of its value member. -/
def HasMember (fp : FloatOps) (r : UInt16 × Value) (p : UInt16 × List UInt8) : Prop :=
  p.1 = r.1 ∧ senmlMember fp r.2 = some p.2

theorem hasMember_rightUnique : Relator.RightUnique (HasMember fp) := fun _ _ _ hp hq =>
  Prod.ext (hp.1.trans hq.1.symm) (Option.some.inj (hp.2.symm.trans hq.2))

/-- The records of an instance: only the first one of all carries the base name. -/
def senmlRecords (bn : List UInt8) : Bool → List (UInt16 × List UInt8) → List SenmlRecord
  | _, [] => []
  | first, p :: ps =>
    ⟨if first then some bn else none, fmtU16 p.1, p.2⟩ :: senmlRecords bn false ps

/-- The separator in front of a record. -/
def senmlSep (first : Bool) : List UInt8 := if first then [] else ascii ","

theorem senmlBody_cons (first : Bool) (r : SenmlRecord) (rs : List SenmlRecord) :
    senmlBody first (r :: rs) = senmlSep first ++ r.render ++ senmlBody false rs := by
  cases first with
  | true => rfl
  | false => simp [senmlBody, senmlTail, senmlSep]

/-- A pass through the loop is a separator and a record. -/
theorem senmlEncodeLoop_cons {res : ResourceDef σ κ} (rest : List (ResourceDef σ κ)) {s s₁ : σ}
    {resId : UInt16} {v : Value} (hread : res.read obj instId s = (some (resId, v), s₁)) (m : Mem)
    {acc z : List UInt8} (hz : z.length ≤ 1) (first : Bool) (hlt : acc.length < bufSize) :
    ∃ z₁ : List UInt8, z₁.length ≤ 1 ∧
      senmlEncodeLoop fp obj instId buf bufSize (res :: rest) (store m buf (acc ++ z)) acc.length
          first s =
        match senmlWriteRecord fp obj.id instId resId v
          (store m buf (acc ++ senmlSep first ++ z₁)) buf bufSize
          (acc ++ senmlSep first).length with
        | (m, none) => ((m, none), s₁)
        | (m, some offset) => senmlEncodeLoop fp obj instId buf bufSize rest m offset false s₁ := by
  rw [senmlEncodeLoop, hread]
  cases first with
  | true =>
    refine ⟨z, hz, ?_⟩
    rw [show acc ++ senmlSep true = acc from List.append_nil acc]
    rfl
  | false =>
    refine ⟨[], by simp, ?_⟩
    have hcomma : store (store m buf (acc ++ z)) (buf + acc.length) (ascii ",") =
        store m buf (acc ++ ascii ",") := store_append_store m buf acc hz
    simp only [senmlSep, Bool.not_false, Bool.true_and, decide_eq_true_eq, Bool.false_eq_true,
      if_false, List.append_nil, hcomma, List.length_append]
    rw [if_neg (by omega)]
    rfl

theorem length_append_senmlSep {acc : List UInt8} {first : Bool} (hacc : 0 < acc.length)
    (hfirst : acc.length = 1 ↔ first = true) :
    (acc ++ senmlSep first).length = 1 ↔ first = true := by
  cases first with
  | true => simpa [senmlSep] using hfirst
  | false =>
    simp only [senmlSep, Bool.false_eq_true, if_false, List.length_append, iff_false]
    change ¬acc.length + 1 = 1
    omega

/-- The text of one pass. -/
def senmlPass (bn : List UInt8) (first : Bool) (p : UInt16 × List UInt8) : List UInt8 :=
  senmlSep first ++
    (SenmlRecord.mk (if first then some bn else none) (fmtU16 p.1) p.2).render

theorem senmlBody_records_cons (bn : List UInt8) (first : Bool) (p : UInt16 × List UInt8)
    (ps : List (UInt16 × List UInt8)) :
    senmlBody first (senmlRecords bn first (p :: ps)) =
      senmlPass bn first p ++ senmlBody false (senmlRecords bn false ps) := by
  rw [senmlRecords, senmlBody_cons, senmlPass]

theorem senmlPass_length_pos (bn : List UInt8) (first : Bool) (p : UInt16 × List UInt8) :
    0 < (senmlPass bn first p).length := by
  simp [senmlPass, SenmlRecord.render, ascii]

/-- **The step of the loop, forward**: a reading whose record fits is printed, and the
loop goes on behind it. -/
theorem senmlEncodeLoop_cons_of_lt {res : ResourceDef σ κ} (rest : List (ResourceDef σ κ))
    {s s₁ : σ} {resId : UInt16} {v : Value} (hread : res.read obj instId s = (some (resId, v), s₁))
    {mem : List UInt8} (hmem : senmlMember fp v = some mem) (m : Mem) {acc z : List UInt8}
    (hz : z.length ≤ 1) {first : Bool} (hacc : 0 < acc.length)
    (hfirst : acc.length = 1 ↔ first = true)
    (hfit : (acc ++ senmlPass (senmlBaseName obj.id instId) first (resId, mem)).length < bufSize) :
    senmlEncodeLoop fp obj instId buf bufSize (res :: rest) (store m buf (acc ++ z)) acc.length
        first s =
      senmlEncodeLoop fp obj instId buf bufSize rest
        (store m buf (acc ++ senmlPass (senmlBaseName obj.id instId) first (resId, mem) ++ [0]))
        (acc ++ senmlPass (senmlBaseName obj.id instId) first (resId, mem)).length false s₁ := by
  have hlt : acc.length < bufSize := by
    rw [List.length_append] at hfit
    omega
  obtain ⟨z₁, hz₁, heq⟩ := senmlEncodeLoop_cons rest hread m hz first hlt
  have hsep := length_append_senmlSep hacc hfirst
  have hbn : (if (acc ++ senmlSep first).length = 1 then some (senmlBaseName obj.id instId)
      else none) = if first then some (senmlBaseName obj.id instId) else none := by
    by_cases hf : first = true
    · rw [if_pos (hsep.mpr hf), if_pos hf]
    · rw [if_neg (fun h => hf (hsep.mp h)), if_neg hf]
  rw [senmlPass, ← List.append_assoc, ← hbn] at hfit ⊢
  rw [heq, senmlWriteRecord_of_lt hmem m hz₁ rfl hfit]

/-- **The step of the loop, backward**: without a value member, or when the record does
not fit, the loop gives up. -/
theorem senmlEncodeLoop_cons_eq_none {res : ResourceDef σ κ} (rest : List (ResourceDef σ κ))
    {s s₁ : σ} {resId : UInt16} {v : Value} (hread : res.read obj instId s = (some (resId, v), s₁))
    (m : Mem) {acc z : List UInt8} (hz : z.length ≤ 1) {first : Bool} (hacc : 0 < acc.length)
    (hfirst : acc.length = 1 ↔ first = true) (hlt : acc.length < bufSize)
    (hnot : ∀ mem, senmlMember fp v = some mem →
      bufSize ≤ (acc ++ senmlPass (senmlBaseName obj.id instId) first (resId, mem)).length) :
    (senmlEncodeLoop fp obj instId buf bufSize (res :: rest) (store m buf (acc ++ z)) acc.length
      first s).1.2 = none := by
  obtain ⟨z₁, hz₁, heq⟩ := senmlEncodeLoop_cons rest hread m hz first hlt
  have hsep := length_append_senmlSep hacc hfirst
  have hnone : (senmlWriteRecord fp obj.id instId resId v
      (store m buf (acc ++ senmlSep first ++ z₁)) buf bufSize
      (acc ++ senmlSep first).length).2 = none := by
    refine senmlWriteRecord_eq_none _ fun mem hmem => ?_
    have hle := hnot mem hmem
    rw [senmlPass, ← List.append_assoc, List.length_append] at hle
    by_cases hf : first = true
    · rw [if_pos (hsep.mpr hf)]
      rwa [if_pos hf] at hle
    · rw [if_neg (fun h => hf (hsep.mp h))]
      rwa [if_neg hf] at hle
  rw [heq]
  generalize senmlWriteRecord fp obj.id instId resId v
    (store m buf (acc ++ senmlSep first ++ z₁)) buf bufSize (acc ++ senmlSep first).length = r
    at hnone
  rcases r with ⟨m', _ | n⟩
  · rfl
  · exact absurd hnone (by simp)

/-- What a run of the loop that returns has written, behind what was there: the records
of the readable resources. -/
theorem senmlEncodeLoop_some {ress : List (ResourceDef σ κ)} {m m' : Mem} {acc z : List UInt8}
    {first : Bool} {n : ℕ} {s s' : σ}
    (h : senmlEncodeLoop fp obj instId buf bufSize ress (store m buf (acc ++ z)) acc.length
      first s = ((m', some n), s'))
    (hz : z.length ≤ 1) (hacc : 0 < acc.length) (hfirst : acc.length = 1 ↔ first = true)
    (hlt : acc.length < bufSize) :
    ∃ ps z', List.Forall₂ (HasMember fp) (readings obj instId ress s) ps ∧ z'.length ≤ 1 ∧
      n = (acc ++ senmlBody first (senmlRecords (senmlBaseName obj.id instId) first ps)).length ∧
      m' = store m buf
        (acc ++ senmlBody first (senmlRecords (senmlBaseName obj.id instId) first ps) ++ z') := by
  induction ress generalizing acc z first s with
  | nil =>
    obtain ⟨h1, -⟩ := Prod.mk.inj h
    obtain ⟨rfl, h2⟩ := Prod.mk.inj h1
    obtain rfl := Option.some.inj h2
    have hbody : senmlBody first (senmlRecords (senmlBaseName obj.id instId) first []) = [] := by
      cases first <;> rfl
    refine ⟨[], z, List.Forall₂.nil, hz, ?_, ?_⟩
    · rw [hbody, List.append_nil]
    · rw [hbody, List.append_nil]
  | cons res rest ih =>
    rcases hread : res.read obj instId s with ⟨_ | ⟨resId, v⟩, s₁⟩
    · rw [senmlEncodeLoop, hread] at h
      rw [readings_cons_none hread]
      exact ih h hz hacc hfirst hlt
    · by_cases hfit : ∃ mem, senmlMember fp v = some mem ∧
          (acc ++ senmlPass (senmlBaseName obj.id instId) first (resId, mem)).length < bufSize
      · obtain ⟨mem, hmem, hlt'⟩ := hfit
        rw [senmlEncodeLoop_cons_of_lt rest hread hmem m hz hacc hfirst hlt'] at h
        have hpos := senmlPass_length_pos (senmlBaseName obj.id instId) first (resId, mem)
        obtain ⟨ps, z', hps, hz', hn, hm⟩ := ih h le_rfl
          (by rw [List.length_append]; omega)
          ⟨fun h => by rw [List.length_append] at h; omega, fun h => by cases h⟩ hlt'
        refine ⟨(resId, mem) :: ps, z', ?_, hz', ?_, ?_⟩
        · rw [readings_cons_some hread]
          exact List.Forall₂.cons ⟨rfl, hmem⟩ hps
        · rw [hn, senmlBody_records_cons, List.append_assoc]
        · rw [hm, senmlBody_records_cons, List.append_assoc acc]
      · have hnone : (senmlEncodeLoop fp obj instId buf bufSize (res :: rest)
            (store m buf (acc ++ z)) acc.length first s).1.2 = none :=
          senmlEncodeLoop_cons_eq_none rest hread m hz hacc hfirst hlt
            fun mem hmem => not_lt.mp fun hc => hfit ⟨mem, hmem, hc⟩
        rw [h] at hnone
        cases hnone

/-- The loop returns when every reading has a value member and the records fit. -/
theorem senmlEncodeLoop_of_lt {ress : List (ResourceDef σ κ)} {ps : List (UInt16 × List UInt8)}
    {m : Mem} {acc z : List UInt8} {first : Bool} {s : σ}
    (hps : List.Forall₂ (HasMember fp) (readings obj instId ress s) ps)
    (hz : z.length ≤ 1) (hacc : 0 < acc.length) (hfirst : acc.length = 1 ↔ first = true)
    (hfit : (acc ++
      senmlBody first (senmlRecords (senmlBaseName obj.id instId) first ps)).length < bufSize) :
    (senmlEncodeLoop fp obj instId buf bufSize ress (store m buf (acc ++ z)) acc.length
      first s).1.2 ≠ none := by
  induction ress generalizing ps acc z first s with
  | nil => exact Option.some_ne_none _
  | cons res rest ih =>
    rcases hread : res.read obj instId s with ⟨_ | ⟨resId, v⟩, s₁⟩
    · rw [readings_cons_none hread] at hps
      rw [senmlEncodeLoop, hread]
      exact ih hps hz hacc hfirst hfit
    · rw [readings_cons_some hread] at hps
      cases hps with
      | @cons _ p _ ps hp hps =>
        obtain ⟨pid, mem⟩ := p
        obtain ⟨rfl, hmem⟩ : pid = resId ∧ senmlMember fp v = some mem := hp
        rw [senmlBody_records_cons, ← List.append_assoc] at hfit
        have hlt : (acc ++ senmlPass (senmlBaseName obj.id instId) first (pid, mem)).length <
            bufSize := by
          rw [List.length_append] at hfit
          omega
        rw [senmlEncodeLoop_cons_of_lt rest hread hmem m hz hacc hfirst hlt]
        have hpos := senmlPass_length_pos (senmlBaseName obj.id instId) first (pid, mem)
        refine ih hps le_rfl ?_ ?_ hfit
        · rw [List.length_append]
          omega
        · constructor
          · intro h
            rw [List.length_append] at h
            omega
          · intro h
            cases h

/-! ### The text of an instance -/

/-- What a run of the loop from the opening bracket has written. -/
theorem senmlEncodeLoop_open_some {m m' : Mem} {s s' : σ} {n : ℕ} (hlt : 1 < bufSize)
    (h : senmlEncodeLoop fp obj instId buf bufSize obj.resources (store m buf (ascii "[")) 1 true
      s = ((m', some n), s')) :
    ∃ ps z', List.Forall₂ (HasMember fp) (obj.readings instId s) ps ∧ z'.length ≤ 1 ∧
      n = (ascii "[" ++
        senmlBody true (senmlRecords (senmlBaseName obj.id instId) true ps)).length ∧
      m' = store m buf (ascii "[" ++
        senmlBody true (senmlRecords (senmlBaseName obj.id instId) true ps) ++ z') := by
  have h' : senmlEncodeLoop fp obj instId buf bufSize obj.resources
      (store m buf (ascii "[" ++ [])) (ascii "[").length true s = ((m', some n), s') := h
  exact senmlEncodeLoop_some h' (Nat.zero_le _) Nat.one_pos (iff_of_true rfl rfl) hlt

/-- A run of the loop from the opening bracket returns when the records fit. -/
theorem senmlEncodeLoop_open_of_lt {ps : List (UInt16 × List UInt8)} {s : σ}
    (hps : List.Forall₂ (HasMember fp) (obj.readings instId s) ps) (m : Mem)
    (hfit : (ascii "[" ++ senmlBody true
      (senmlRecords (senmlBaseName obj.id instId) true ps)).length < bufSize) :
    (senmlEncodeLoop fp obj instId buf bufSize obj.resources (store m buf (ascii "[")) 1 true
      s).1.2 ≠ none := by
  have h : (senmlEncodeLoop fp obj instId buf bufSize obj.resources
      (store m buf (ascii "[" ++ [])) (ascii "[").length true s).1.2 ≠ none :=
    senmlEncodeLoop_of_lt hps (Nat.zero_le _) Nat.one_pos (iff_of_true rfl rfl) hfit
  exact h

/-- What the encoder has written when it succeeds. -/
theorem encodeSenmlJsonInstance_some {m m' : Mem} {s s' : σ} {n : ℕ}
    (h : encodeSenmlJsonInstance fp obj instId m buf bufSize s = ((m', some n), s')) :
    ∃ ps, List.Forall₂ (HasMember fp) (obj.readings instId s) ps ∧
      n = (senmlPack (senmlRecords (senmlBaseName obj.id instId) true ps)).length ∧ n < bufSize ∧
      m' = store m buf (senmlPack (senmlRecords (senmlBaseName obj.id instId) true ps) ++ [0]) := by
  rw [encodeSenmlJsonInstance] at h
  by_cases hsize : bufSize < 2
  · rw [if_pos hsize, ite_self] at h
    cases h
  · rw [if_neg (by omega), if_neg hsize] at h
    rcases hloop : senmlEncodeLoop fp obj instId buf bufSize obj.resources
      (store m buf (ascii "[")) 1 true s with ⟨⟨m₁, _ | offset⟩, s₁⟩
    · rw [hloop] at h
      cases h
    · rw [hloop] at h
      obtain ⟨ps, z, hps, hz, hoff, rfl⟩ := senmlEncodeLoop_open_some (by omega) hloop
      simp only at h
      by_cases hclose : bufSize ≤ offset + 1
      · rw [if_pos hclose] at h
        cases h
      · rw [if_neg hclose] at h
        obtain ⟨h1, -⟩ := Prod.mk.inj h
        obtain ⟨rfl, h2⟩ := Prod.mk.inj h1
        obtain rfl := Option.some.inj h2
        refine ⟨ps, hps, ?_, not_le.mp hclose, ?_⟩
        · rw [senmlPack_eq, List.length_append, ← hoff]
          rfl
        · rw [hoff, store_append_store m buf _
            (show z.length ≤ (ascii "]" ++ [0]).length from hz.trans (by decide)), senmlPack_eq,
            List.append_assoc _ (ascii "]")]

/-- The encoder succeeds when every reading has a value member and the text fits. -/
theorem encodeSenmlJsonInstance_of_lt {ps : List (UInt16 × List UInt8)} {s : σ}
    (hps : List.Forall₂ (HasMember fp) (obj.readings instId s) ps) (m : Mem)
    (hfit : (senmlPack (senmlRecords (senmlBaseName obj.id instId) true ps)).length < bufSize) :
    (encodeSenmlJsonInstance fp obj instId m buf bufSize s).1.2 ≠ none := by
  rw [senmlPack_eq, List.length_append] at hfit
  change _ + 1 < _ at hfit
  have hpos : 1 ≤ (ascii "[" ++ senmlBody true
      (senmlRecords (senmlBaseName obj.id instId) true ps)).length := by
    rw [List.length_append]
    exact Nat.le_add_right 1 _
  rw [encodeSenmlJsonInstance, if_neg (by omega), if_neg (by omega)]
  rcases heq : senmlEncodeLoop fp obj instId buf bufSize obj.resources
    (store m buf (ascii "[")) 1 true s with ⟨⟨m₁, _ | offset⟩, s₁⟩
  · exact absurd (congrArg (fun r => r.1.2) heq) (senmlEncodeLoop_open_of_lt hps m (by omega))
  · obtain ⟨ps', z, hps', -, hoff, -⟩ := senmlEncodeLoop_open_some (by omega) heq
    obtain rfl : ps' = ps := List.right_unique_forall₂' hasMember_rightUnique hps' hps
    simp only
    rw [if_neg (by omega)]
    exact Option.some_ne_none _

/-! ### Joining single texts -/

/-- `T` is the text the single-resource encoder gives for a reading when the buffer is
large enough not to matter. -/
def SingleText (fp : FloatOps) (objId instId : UInt16) (r : UInt16 × Value) (T : List UInt8) :
    Prop :=
  ∃ size, ∀ m buf cap, size ≤ cap → ∃ m',
    encodeSenmlJson fp objId instId r.1 r.2 m buf cap = (m', some T.length) ∧
      load m' buf T.length = T

theorem singleText_iff {objId : UInt16} {r : UInt16 × Value} {T : List UInt8} :
    SingleText fp objId instId r T ↔ senmlText fp objId instId r.1 r.2 = some T := by
  constructor
  · rintro ⟨size, h⟩
    obtain ⟨m', henc, hload⟩ := h (fun _ => 0) 0 size le_rfl
    obtain ⟨T', hT', hlen, -, rfl⟩ := encodeSenmlJson_some henc
    rwa [← hload, hlen, load_store_append]
  · intro hT
    refine ⟨T.length + 1, fun m buf cap hcap => ?_⟩
    exact ⟨_, encodeSenmlJson_of_lt hT m buf (by omega), load_store_append _ _ _ _⟩

/-- The text between the brackets. -/
def senmlInner (T : List UInt8) : List UInt8 := (T.drop 1).dropLast

/-- The text between the brackets, without the `bn` member: what follows the first
comma, in a brace of its own. -/
def senmlInnerRest (T : List UInt8) : List UInt8 :=
  ascii "\x7b" ++ ((senmlInner T).dropWhile (· ≠ 0x2C)).drop 1

/-- Single texts joined into one array, with a base name in the first record only. -/
def senmlJoin : List (List UInt8) → List UInt8
  | [] => ascii "[]"
  | T :: Ts =>
    ascii "[" ++ senmlInner T ++ Ts.flatMap (fun T => ascii "," ++ senmlInnerRest T) ++ ascii "]"

theorem senmlInner_pack (r : SenmlRecord) : senmlInner (senmlPack [r]) = r.render := by
  have h : senmlPack [r] = 0x5B :: (r.render ++ [0x5D]) := by
    simp [senmlPack, senmlTail, ascii]
  rw [senmlInner, h, List.drop_one, List.tail_cons, List.dropLast_concat]

/-- No comma in a base name of identifiers. -/
theorem comma_notMem_senmlBaseName (objId instId : UInt16) :
    (0x2C : UInt8) ∉ senmlBaseName objId instId := by
  have hnum : ∀ v, (0x2C : UInt8) ∉ fmtU16 v := fun v h =>
    absurd (Decimal.mem_ofNat h).1 (by decide)
  have hslash : (0x2C : UInt8) ∉ ascii "/" := by decide
  simp only [senmlBaseName, List.mem_append, not_or]
  exact ⟨⟨⟨⟨hslash, hnum _⟩, hslash⟩, hnum _⟩, hslash⟩

/-- Dropping the `bn` member of a text is dropping the base name of its record. -/
theorem senmlInnerRest_pack {objId : UInt16} (name mem : List UInt8) :
    senmlInnerRest (senmlPack [⟨some (senmlBaseName objId instId), name, mem⟩]) =
      (SenmlRecord.mk none name mem).render := by
  have hbn : ∀ a ∈ ascii "\x7b\"bn\":\"" ++ senmlBaseName objId instId ++ ascii "\"",
      decide (a ≠ (0x2C : UInt8)) = true := by
    intro a ha
    refine decide_eq_true fun h => ?_
    subst h
    simp only [List.mem_append] at ha
    rcases ha with (ha | ha) | ha
    · revert ha
      decide
    · exact comma_notMem_senmlBaseName _ _ ha
    · revert ha
      decide
  have hsplit : (SenmlRecord.mk (some (senmlBaseName objId instId)) name mem).render =
      (ascii "\x7b\"bn\":\"" ++ senmlBaseName objId instId ++ ascii "\"") ++
        0x2C :: (ascii "\"n\":\"" ++ name ++ ascii "\"," ++ mem ++ ascii "\x7d") := by
    simp [SenmlRecord.render, bnMember, ascii]
  rw [senmlInnerRest, senmlInner_pack, hsplit, List.dropWhile_append_of_pos hbn,
    List.dropWhile_cons_of_neg (by decide)]
  simp [SenmlRecord.render]

/-- The record of a single encoding. -/
def senmlSingle (bn : List UInt8) (p : UInt16 × List UInt8) : SenmlRecord :=
  ⟨some bn, fmtU16 p.1, p.2⟩

theorem singleText_iff_hasMember {objId : UInt16} {r : UInt16 × Value} {T : List UInt8} :
    SingleText fp objId instId r T ↔
      ∃ p, HasMember fp r p ∧ T = senmlPack [senmlSingle (senmlBaseName objId instId) p] := by
  rw [singleText_iff, senmlText_eq]
  constructor
  · intro h
    obtain ⟨mem, hmem, rfl⟩ := Option.map_eq_some_iff.mp h
    exact ⟨(r.1, mem), ⟨rfl, hmem⟩, rfl⟩
  · rintro ⟨⟨_, mem⟩, ⟨rfl, hmem⟩, rfl⟩
    rw [hmem]
    rfl

/-- The single texts of the readings are those of their value members. -/
theorem forall₂_singleText_iff {objId : UInt16} {rds : List (UInt16 × Value)}
    {Ts : List (List UInt8)} :
    List.Forall₂ (SingleText fp objId instId) rds Ts ↔
      ∃ ps, List.Forall₂ (HasMember fp) rds ps ∧
        Ts = ps.map fun p => senmlPack [senmlSingle (senmlBaseName objId instId) p] := by
  constructor
  · intro h
    induction h with
    | nil => exact ⟨[], List.Forall₂.nil, rfl⟩
    | cons hT _ ih =>
      obtain ⟨p, hp, rfl⟩ := singleText_iff_hasMember.mp hT
      obtain ⟨ps, hps, rfl⟩ := ih
      exact ⟨p :: ps, List.Forall₂.cons hp hps, rfl⟩
  · rintro ⟨ps, hps, rfl⟩
    induction hps with
    | nil => exact List.Forall₂.nil
    | cons hp _ ih => exact List.Forall₂.cons (singleText_iff_hasMember.mpr ⟨_, hp, rfl⟩) ih

theorem senmlTail_records {objId : UInt16} (ps : List (UInt16 × List UInt8)) :
    senmlTail (senmlRecords (senmlBaseName objId instId) false ps) =
      (ps.map fun p => senmlPack [senmlSingle (senmlBaseName objId instId) p]).flatMap
        fun T => ascii "," ++ senmlInnerRest T := by
  induction ps with
  | nil => rfl
  | cons p ps ih =>
    rw [List.map_cons, List.flatMap_cons, ← ih, senmlSingle, senmlInnerRest_pack]
    rfl

/-- **The text of the instance is the join of the single texts.** -/
theorem senmlJoin_map {objId : UInt16} (ps : List (UInt16 × List UInt8)) :
    senmlJoin (ps.map fun p => senmlPack [senmlSingle (senmlBaseName objId instId) p]) =
      senmlPack (senmlRecords (senmlBaseName objId instId) true ps) := by
  cases ps with
  | nil => rfl
  | cons p ps =>
    rw [List.map_cons, senmlJoin, senmlInner_pack, ← senmlTail_records]
    rfl

/-- **Resolving the base names** of the instance gives the records of the single
encodings, whatever base name held before. -/
theorem senmlResolve_records (bn base : List UInt8) (first : Bool)
    (ps : List (UInt16 × List UInt8)) (h : first = false → base = bn) :
    senmlResolve base (senmlRecords bn first ps) =
      (ps.map (senmlSingle bn)).flatMap fun r => senmlResolve [] [r] := by
  induction ps generalizing base first with
  | nil => rfl
  | cons p ps ih =>
    have hbase : (if first then some bn else none).getD base = bn := by
      cases first with
      | true => rfl
      | false => exact h rfl
    simp only [senmlRecords, senmlResolve, hbase, ih bn false fun _ => rfl]
    rfl

/-- **The instance encoder refines the single-resource encoder.** It succeeds exactly
when every readable resource has a single text and their join fits the buffer with its
terminator, and it writes this join. The join is a pack whose base names resolve to the
records of the single texts. The single-resource encoder, too, succeeds exactly when its
text and the terminator fit. -/
theorem senml_instance_refines_single (fp : FloatOps) (obj : ObjectDef σ κ) (instId : UInt16)
    (m : Mem) (buf bufSize : ℕ) (s : σ) :
    (∀ n, (encodeSenmlJsonInstance fp obj instId m buf bufSize s).1.2 = some n ↔
      ∃ Ts, List.Forall₂ (SingleText fp obj.id instId) (obj.readings instId s) Ts ∧
        n = (senmlJoin Ts).length ∧ n < bufSize) ∧
    (∀ m' n s' Ts, encodeSenmlJsonInstance fp obj instId m buf bufSize s = ((m', some n), s') →
      List.Forall₂ (SingleText fp obj.id instId) (obj.readings instId s) Ts →
      load m' buf (n + 1) = senmlJoin Ts ++ [0] ∧
        ∃ rs singles, senmlJoin Ts = senmlPack rs ∧
          List.Forall₂ (fun T r => T = senmlPack [r]) Ts singles ∧
          senmlResolve [] rs = singles.flatMap fun r => senmlResolve [] [r]) ∧
    (∀ objId resId v n, (encodeSenmlJson fp objId instId resId v m buf bufSize).2 = some n ↔
      ∃ T, SingleText fp objId instId (resId, v) T ∧ n = T.length ∧ n < bufSize) := by
  refine ⟨fun n => ⟨fun h => ?_, ?_⟩, fun m' n s' Ts h hTs => ?_,
    fun objId resId v n => ⟨fun h => ?_, ?_⟩⟩
  · obtain ⟨ps, hps, hn, hlt, -⟩ := encodeSenmlJsonInstance_some (Prod.ext (Prod.ext rfl h) rfl)
    exact ⟨_, forall₂_singleText_iff.mpr ⟨ps, hps, rfl⟩, by rw [senmlJoin_map, hn], hlt⟩
  · rintro ⟨Ts, hTs, rfl, hlt⟩
    obtain ⟨ps, hps, rfl⟩ := forall₂_singleText_iff.mp hTs
    rw [senmlJoin_map] at hlt ⊢
    have hsome : (encodeSenmlJsonInstance fp obj instId m buf bufSize s).1.2 ≠ none :=
      encodeSenmlJsonInstance_of_lt hps m hlt
    obtain ⟨n, hn⟩ := Option.ne_none_iff_exists'.mp hsome
    obtain ⟨ps', hps', hn', -⟩ := encodeSenmlJsonInstance_some (Prod.ext (Prod.ext rfl hn) rfl)
    obtain rfl := List.right_unique_forall₂' hasMember_rightUnique hps' hps
    rw [hn, hn']
  · obtain ⟨ps, hps, rfl⟩ := forall₂_singleText_iff.mp hTs
    obtain ⟨ps', hps', rfl, -, rfl⟩ := encodeSenmlJsonInstance_some h
    obtain rfl := List.right_unique_forall₂' hasMember_rightUnique hps' hps
    rw [senmlJoin_map]
    refine ⟨?_, _, ps'.map (senmlSingle (senmlBaseName obj.id instId)), rfl, ?_,
      senmlResolve_records _ _ true ps' fun h => by cases h⟩
    · have hload := load_store m buf
        (senmlPack (senmlRecords (senmlBaseName obj.id instId) true ps') ++ [0])
      rwa [List.length_append] at hload
    · rw [List.forall₂_map_left_iff, List.forall₂_map_right_iff]
      exact List.forall₂_same.mpr fun _ _ => rfl
  · obtain ⟨T, hT, hn, hlt, -⟩ := encodeSenmlJson_some (Prod.ext rfl h)
    exact ⟨T, singleText_iff.mpr hT, hn, hlt⟩
  · rintro ⟨T, hT, rfl, hlt⟩
    rw [encodeSenmlJson_of_lt (singleText_iff.mp hT) m buf hlt]

/-- A device with readings of five types. Three of its resources are skipped: one has
no value, one no callback, and the read of one fails. -/
def mixedDevice : ObjectDef Unit Unit where
  id := 3
  instances := [0]
  resources := [
    ⟨4, .none, 4, false, Option.none⟩,
    ⟨0, .string, 1, false, some fun _ _ _ _ _ => ((.ok, .string (ascii "Acme")), ())⟩,
    ⟨9, .integer, 1, false, Option.none⟩,
    ⟨10, .integer, 1, false, some fun _ _ _ _ _ => ((.ok, .integer (-7)), ())⟩,
    ⟨13, .time, 1, false, some fun _ _ _ _ _ => ((.fail, .none), ())⟩,
    ⟨20, .boolean, 1, false, some fun _ _ _ _ _ => ((.ok, .boolean true), ())⟩,
    ⟨21, .float, 1, false, some fun _ _ _ _ _ => ((.ok, .float 0x4037800000000000), ())⟩,
    ⟨22, .opaqueData, 1, false, some fun _ _ _ _ _ => ((.ok, .opaqueData [1, 2, 3, 4]), ())⟩]
  userCtx := ()

/-- The five readings of the device. -/
theorem senml_instance_refines_single_sample : ∃ m' Ts,
    encodeSenmlJsonInstance ieee754 mixedDevice 0 (fun _ => 0) 0 256 () = ((m', some 122), ()) ∧
      List.Forall₂ (SingleText ieee754 3 0)
        [(0, .string (ascii "Acme")), (10, .integer (-7)), (20, .boolean true),
          (21, .float 0x4037800000000000), (22, .opaqueData [1, 2, 3, 4])] Ts ∧
      load m' 0 123 = senmlJoin Ts ++ [0] := by
  have henc : encodeSenmlJsonInstance ieee754 mixedDevice 0 (fun _ => 0) 0 256 () =
      ((_, some 122), ()) := rfl
  obtain ⟨hiff, hjoin, -⟩ :=
    senml_instance_refines_single ieee754 mixedDevice 0 (fun _ => 0) 0 256 ()
  obtain ⟨Ts, hTs, -⟩ := (hiff 122).mp (congrArg (fun r => r.1.2) henc)
  exact ⟨_, Ts, henc, hTs, (hjoin _ _ _ Ts henc hTs).1⟩

end WbLwm2m
