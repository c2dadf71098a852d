import WbLwm2m.Lib.Transition
import WbLwm2m.TlvRoundTrip
import Mathlib.Data.Rat.Cast.Order

/-!
# The Server object

The read and the write callback that `wb_lwm2m_create_server_object` puts into the table of a
Server object, with the accessor `wb_lwm2m_value_get_int` between a value and the field it is
stored in. What has been written should be read back, as a number, and what the field does not
hold should be refused (`WbLwm2m.ReadsBack`). The write callback refuses no value: a number
that is not in the range of the field is cut to 32 bits, and what is not a number is stored as
zero. `WbLwm2m.server_reads_back_iff` says which writes are read back all the same.
-/

namespace WbLwm2m

open Transition

/-! ### The accessor -/

/-- `wb_lwm2m_value_get_int` -/
def valueGetInt : Value → Int64
  | .integer v => v
  | .uinteger v => v.toInt64
  | .time v => v
  | .boolean b => if b then 1 else 0
  | _ => 0

/-- **The `bool` in the union**: what is found there when the union holds another member is
up to the compiler. -/
structure BoolMember where
  get : Value → Bool
  get_boolean : ∀ b, get (.boolean b) = b

/-! ### The callbacks -/

/-- `wb_lwm2m_server_info_t`; `binding` may be `NULL`. -/
structure ServerInfo where
  shortServerId : UInt16
  lifetime : UInt32
  defaultMinPeriod : UInt32
  defaultMaxPeriod : UInt32
  disableTimeout : UInt32
  notificationStoring : Bool
  binding : Option (List UInt8)

/-- `WB_LWM2M_VALUE_INT` of an unsigned field. -/
def valueInt (v : UInt32) : Value := .integer v.toUInt64.toInt64

/-- `server_read_cb`; the context may be `NULL`. -/
def serverReadCb (ctx : Option ServerInfo) (resId : UInt16) : EspErr × Value :=
  match ctx with
  | none => (.invalidState, .none)
  | some info =>
    if resId = 0 then (.ok, valueInt info.shortServerId.toUInt32)
    else if resId = 1 then (.ok, valueInt info.lifetime)
    else if resId = 2 then (.ok, valueInt info.defaultMinPeriod)
    else if resId = 3 then (.ok, valueInt info.defaultMaxPeriod)
    else if resId = 5 then (.ok, valueInt info.disableTimeout)
    else if resId = 6 then (.ok, .boolean info.notificationStoring)
    else if resId = 7 then (.ok, .string (info.binding.getD (ascii "U")))
    else (.notFound, .none)

/-- `(uint32_t)wb_lwm2m_value_get_int(value)` -/
def valueGetUint32 (value : Value) : UInt32 := (valueGetInt value).toUInt64.toUInt32

/-- `server_write_cb`: the code, and the context after the call. -/
def serverWriteCb (bm : BoolMember) (ctx : Option ServerInfo) (resId : UInt16) (value : Value) :
    EspErr × Option ServerInfo :=
  match ctx with
  | none => (.invalidState, none)
  | some info =>
    if resId = 1 then (.ok, some { info with lifetime := valueGetUint32 value })
    else if resId = 2 then (.ok, some { info with defaultMinPeriod := valueGetUint32 value })
    else if resId = 3 then (.ok, some { info with defaultMaxPeriod := valueGetUint32 value })
    else if resId = 5 then (.ok, some { info with disableTimeout := valueGetUint32 value })
    else if resId = 6 then (.ok, some { info with notificationStoring := bm.get value })
    else (.notFound, some info)

/-! ### Numbers -/

/-- **The number a value stands for**, if it stands for one; `true` is one and `false` is
zero. -/
def Value.number : Value → Option ℚ
  | .integer v | .time v => some (v.toInt : ℚ)
  | .uinteger v => some (v.toNat : ℚ)
  | .float d => doubleValue d
  | .boolean b => some (if b then 1 else 0)
  | _ => Option.none

/-- Two values that stand for the same number. -/
def SameNumber (v w : Value) : Prop := ∃ q, v.number = some q ∧ w.number = some q

/-- A value that a field of 32 bits takes as it is: a number it can hold, and no `double` but
zero. -/
def Fits (v : Value) : Prop :=
  ∃ n : ℕ, n < 2 ^ 32 ∧ v.number = some (n : ℚ) ∧ (v.type = .float → n = 0)

/-! ### What is stored -/

theorem toInt_valueInt (v : UInt32) : v.toUInt64.toInt64.toInt = v.toNat := by
  have hlt := v.toNat_lt
  have hmod := toInt_modEq_toUInt64 v.toUInt64.toInt64
  have hlo := v.toUInt64.toInt64.le_toInt
  have hhi := v.toUInt64.toInt64.toInt_lt
  rw [UInt64.toUInt64_toInt64, UInt32.toNat_toUInt64] at hmod
  obtain ⟨k, hk⟩ := hmod.dvd
  omega

theorem number_valueInt (v : UInt32) : (valueInt v).number = some (v.toNat : ℚ) := by
  rw [valueInt, Value.number, toInt_valueInt, Int.cast_natCast]

/-- The cut to 32 bits is a remainder. -/
theorem toNat_valueGetUint32 (v : Value) :
    ((valueGetUint32 v).toNat : ℤ) = (valueGetInt v).toInt % 2 ^ 32 := by
  have hmod := (toInt_modEq_toUInt64 (valueGetInt v)).of_dvd (show (2 : ℤ) ^ 32 ∣ 2 ^ 64 by decide)
  rw [valueGetUint32, UInt64.toNat_toUInt32]
  push_cast
  exact hmod.symm

/-- **A value is stored as it is exactly if it fits.** -/
theorem number_eq_stored_iff (v : Value) :
    v.number = some ((valueGetUint32 v).toNat : ℚ) ↔ Fits v := by
  have hlt := (valueGetUint32 v).toNat_lt
  have hcut := toNat_valueGetUint32 v
  constructor
  · intro hv
    refine ⟨_, hlt, hv, fun hfloat => ?_⟩
    rcases v with _ | _ | _ | _ | d | _ | _ | _ | _ | _
    case float =>
      rw [show valueGetInt (.float d) = 0 from rfl, Int64.toInt_zero] at hcut
      omega
    all_goals cases hfloat
  · rintro ⟨n, hn, hv, hfloat⟩
    rw [hv, Option.some.injEq, Nat.cast_inj]
    -- what the accessor answers is the number, but for a `double`, which fits if it is zero
    have hget : (valueGetInt v).toInt % 2 ^ 32 = n := by
      rcases v with _ | _ | i | u | d | b | _ | i | _ | _
      case integer | time =>
        have hi : i.toInt = n := by exact_mod_cast Option.some.inj hv
        rw [valueGetInt, hi]
        omega
      case uinteger =>
        have hu : u.toNat = n := by exact_mod_cast Option.some.inj hv
        have hmod := (toInt_modEq_toUInt64 u.toInt64).of_dvd
          (show (2 : ℤ) ^ 32 ∣ 2 ^ 64 by decide)
        rw [UInt64.toUInt64_toInt64, hu] at hmod
        rw [valueGetInt, hmod]
        omega
      case float =>
        rw [hfloat rfl]
        rfl
      case boolean =>
        have hb : (if b then 1 else 0 : ℚ) = n := Option.some.inj hv
        cases b
        · obtain rfl : n = 0 := by exact_mod_cast hb.symm
          rfl
        · obtain rfl : n = 1 := by exact_mod_cast hb.symm
          rfl
      all_goals cases hv
    omega

/-! ### Reading back -/

/-- **A write is read back or refused**: after a success the resource reads as the number that
was written, and the others read as before; after a failure all read as before. -/
def ReadsBack (ctx ctx' : Option ServerInfo) (err : EspErr) (resId : UInt16) (value : Value) :
    Prop :=
  (err = .ok → (∃ v, serverReadCb ctx' resId = (.ok, v) ∧ SameNumber v value) ∧
    ∀ other, other ≠ resId → serverReadCb ctx' other = serverReadCb ctx other) ∧
  (err ≠ .ok → ∀ other, serverReadCb ctx' other = serverReadCb ctx other)

/-- **A write that the field takes as it is**: of a number it can hold to one of the four
fields of 32 bits, of a truth value to the `bool`, or of anything to what cannot be
written. -/
def Writable (bm : BoolMember) (resId : UInt16) (value : Value) : Prop :=
  (resId = 1 ∨ resId = 2 ∨ resId = 3 ∨ resId = 5 → Fits value) ∧
    (resId = 6 → value.number = some (if bm.get value then 1 else 0))

/-- A truth value fits the `bool`. -/
theorem writable_boolean (bm : BoolMember) (b : Bool) : Writable bm 6 (.boolean b) := by
  refine ⟨fun h => absurd h (by decide), fun _ => ?_⟩
  rw [bm.get_boolean]
  rfl

/-- An integer fits a field of 32 bits if it is in its range. -/
theorem fits_integer_iff (v : Int64) : Fits (.integer v) ↔ 0 ≤ v.toInt ∧ v.toInt < 2 ^ 32 := by
  constructor
  · rintro ⟨n, hn, hv, -⟩
    have hv' : v.toInt = n := by exact_mod_cast Option.some.inj hv
    omega
  · rintro ⟨hlo, hhi⟩
    refine ⟨v.toInt.toNat, by omega, ?_, fun hfloat => (nomatch hfloat)⟩
    rw [Value.number, Option.some.injEq]
    exact_mod_cast (Int.toNat_of_nonneg hlo).symm

theorem sameNumber_iff {v w : Value} {q : ℚ} (hv : v.number = some q) :
    SameNumber v w ↔ w.number = some q := by
  constructor
  · rintro ⟨r, hr, hw⟩
    rw [hw, ← hr, hv]
  · intro hw
    exact ⟨q, hv, hw⟩

/-- What has been stored is read back exactly if it is the number that was written. -/
theorem readsBack_stored {ctx ctx' : Option ServerInfo} {resId : UInt16} {value v : Value} {q : ℚ}
    (hread : serverReadCb ctx' resId = (.ok, v)) (hv : v.number = some q)
    (hother : ∀ other, other ≠ resId → serverReadCb ctx' other = serverReadCb ctx other) :
    ReadsBack ctx ctx' .ok resId value ↔ value.number = some q := by
  rw [← sameNumber_iff hv]
  constructor
  · intro h
    obtain ⟨⟨v', hv', hsame⟩, -⟩ := h.1 rfl
    obtain ⟨-, rfl⟩ := Prod.mk.inj (hread.symm.trans hv')
    exact hsame
  · intro hsame
    exact ⟨fun _ => ⟨⟨v, hread, hsame⟩, hother⟩, fun hne => absurd rfl hne⟩

/-- **One write.** -/
theorem readsBack_iff (bm : BoolMember) (info : ServerInfo) (resId : UInt16) (value : Value) :
    ReadsBack (some info) (serverWriteCb bm (some info) resId value).2
      (serverWriteCb bm (some info) resId value).1 resId value ↔ Writable bm resId value := by
  -- the four fields of 32 bits
  have hfield : ∀ {info' : ServerInfo}, (resId = 1 ∨ resId = 2 ∨ resId = 3 ∨ resId = 5) →
      serverReadCb (some info') resId = (.ok, valueInt (valueGetUint32 value)) →
      (∀ other, other ≠ resId → serverReadCb (some info') other = serverReadCb (some info) other) →
      (ReadsBack (some info) (some info') .ok resId value ↔ Writable bm resId value) := by
    rintro info' hres hread hother
    have hne : resId ≠ 6 := by
      rintro rfl
      exact absurd hres (by decide)
    rw [readsBack_stored hread (number_valueInt _) hother, number_eq_stored_iff]
    exact ⟨fun h => ⟨fun _ => h, fun h6 => absurd h6 hne⟩, fun h => h.1 hres⟩
  by_cases h1 : resId = 1
  · subst h1
    exact hfield (by decide) rfl fun other hne => by simp only [serverReadCb, if_neg hne]
  by_cases h2 : resId = 2
  · subst h2
    exact hfield (by decide) rfl fun other hne => by simp only [serverReadCb, if_neg hne]
  by_cases h3 : resId = 3
  · subst h3
    exact hfield (by decide) rfl fun other hne => by simp only [serverReadCb, if_neg hne]
  by_cases h5 : resId = 5
  · subst h5
    exact hfield (by decide) rfl fun other hne => by simp only [serverReadCb, if_neg hne]
  by_cases h6 : resId = 6
  · subst h6
    have hread : serverReadCb (serverWriteCb bm (some info) 6 value).2 6 =
        (.ok, .boolean (bm.get value)) := rfl
    refine (readsBack_stored hread rfl fun other hne => ?_).trans ?_
    · simp only [serverReadCb, serverWriteCb, if_neg hne]
      rfl
    · exact ⟨fun h => ⟨fun hres => absurd hres (by decide), fun _ => h⟩, fun h => h.2 rfl⟩
  · have hwrite : serverWriteCb bm (some info) resId value = (.notFound, some info) := by
      rw [serverWriteCb, if_neg h1, if_neg h2, if_neg h3, if_neg h5, if_neg h6]
    rw [hwrite]
    refine iff_of_true ⟨fun h => (nomatch h), fun _ _ => rfl⟩ ⟨fun hres => ?_, ?_⟩
    · rcases hres with h | h | h | h <;> contradiction
    · exact fun h => absurd h h6

/-! ### Any sequence of writes -/

/-- A write, as a step of the context. -/
def serverStep (bm : BoolMember) (ctx : Option ServerInfo) (write : UInt16 × Value) :
    Option (Option ServerInfo) :=
  some (serverWriteCb bm ctx write.1 write.2).2

/-- A context that is there stays there. -/
theorem exists_of_serverStep {bm : BoolMember} {ctx ctx' : Option ServerInfo}
    {write : UInt16 × Value} (hctx : ∃ info, ctx = some info)
    (hstep : serverStep bm ctx write = some ctx') : ∃ info, ctx' = some info := by
  obtain ⟨info, rfl⟩ := hctx
  obtain rfl := Option.some.inj hstep
  rw [serverWriteCb]
  split_ifs <;> exact ⟨_, rfl⟩

/-- **Which writes are read back.** In a sequence of writes, each is read back or refused if
and only if each is one the field takes as it is; or if there is no context, when all are
refused. -/
theorem server_reads_back_iff (bm : BoolMember) (ctx : Option ServerInfo)
    (writes : List (UInt16 × Value)) :
    Along (serverStep bm) (fun ctx write ctx' => ReadsBack ctx ctx'
        (serverWriteCb bm ctx write.1 write.2).1 write.1 write.2) ctx writes ↔
      ctx = none ∨ ∀ write ∈ writes, Writable bm write.1 write.2 := by
  have htotal : ∀ ctx write, ∃ ctx', serverStep bm ctx write = some ctx' :=
    fun _ _ => ⟨_, rfl⟩
  rcases ctx with _ | info
  · have hall : Along (serverStep bm) (fun ctx write ctx' => ReadsBack ctx ctx'
        (serverWriteCb bm ctx write.1 write.2).1 write.1 write.2) none writes ↔
          Along (serverStep bm) (fun _ _ _ => True) none writes := by
      refine along_step_iff (J := fun ctx => ctx = none) ?_ ?_ rfl writes
      · rintro _ write ctx' rfl hstep
        exact (Option.some.inj hstep).symm
      · rintro _ write ctx' rfl hstep
        obtain rfl := Option.some.inj hstep
        exact iff_of_true ⟨fun h => (nomatch h), fun _ _ => rfl⟩ trivial
    exact iff_of_true (hall.mpr ((along_forall_iff htotal none writes).mpr fun _ _ => trivial))
      (Or.inl rfl)
  · rw [or_iff_right (Option.some_ne_none info), ← along_forall_iff htotal (some info) writes]
    refine along_step_iff (J := fun ctx => ∃ info, ctx = some info) ?_ ?_ ⟨info, rfl⟩ writes
    · rintro ctx write ctx' hctx hstep
      exact exists_of_serverStep hctx hstep
    · rintro _ write ctx' ⟨info, rfl⟩ hstep
      obtain rfl := Option.some.inj hstep
      exact readsBack_iff bm info write.1 write.2

/-- The configuration of a server with a lifetime of five minutes. -/
def sampleServer : ServerInfo where
  shortServerId := 1
  lifetime := 300
  defaultMinPeriod := 0
  defaultMaxPeriod := 0
  disableTimeout := 0
  notificationStoring := true
  binding := some (ascii "U")

/-- A `bool` in the first byte of the union, zero in a value that is not a number. -/
def firstByte : BoolMember where
  get
    | .boolean b => b
    | .integer v | .time v => v.toUInt64 &&& 0xFF ≠ 0
    | .uinteger v | .float v => v &&& 0xFF ≠ 0
    | _ => false
  get_boolean _ := rfl

/-- **A lifetime of `-1` is accepted**, and reads as `4294967295`. -/
theorem negative_lifetime_accepted :
    (serverWriteCb firstByte (some sampleServer) 1 (.integer (-1))).1 = .ok ∧
      serverReadCb (serverWriteCb firstByte (some sampleServer) 1 (.integer (-1))).2 1 =
        (.ok, .integer 4294967295) ∧
      ¬SameNumber (.integer 4294967295) (.integer (-1)) := by
  refine ⟨rfl, rfl, ?_⟩
  rintro ⟨q, hq, hq'⟩
  have heq : ((4294967295 : ℤ) : ℚ) = ((-1 : ℤ) : ℚ) :=
    (Option.some.inj hq).trans (Option.some.inj hq').symm
  exact absurd (Int.cast_injective heq) (by decide)

end WbLwm2m
