import WbLwm2m.Lib.Hex
import WbLwm2m.Lib.Writer
import WbLwm2m.StdObjects

/-!
# The key of the example

The example takes its pre-shared key from a hexadecimal text of the build configuration. The
loader writes the key into a buffer byte by byte, and does not look at a pair of characters
before the ones in front of it are written; it says how long the key is when it is complete.

`WbLwm2m.psk_key_loaded_iff` says which texts are taken, what is written, and that it is this key
that the Security object of the example answers.
-/

namespace WbLwm2m

open Memory

/-! ### The loader -/

/-- `hex_nibble`: what it leaves behind its pointer, if it answers `true`. -/
def hexNibble (c : UInt8) : Option UInt8 :=
  if 0x30 ≤ c ∧ c ≤ 0x39 then some (c - 0x30)
  else if 0x61 ≤ c ∧ c ≤ 0x66 then some (c - 0x61 + 10)
  else if 0x41 ≤ c ∧ c ≤ 0x46 then some (c - 0x41 + 10)
  else none

/-- The loop of `load_psk_key_from_kconfig`, from some pair of characters on. -/
def loadPskLoop : Text → ℕ → Mem → Mem × EspErr
  | hi :: lo :: rest, out, m => match hexNibble hi, hexNibble lo with
    | some hi, some lo => loadPskLoop rest (out + 1) (store m out [hi <<< 4 ||| lo])
    | _, _ => (m, .invalidArg)
  | _, _, m => (m, .ok)

/-- `load_psk_key_from_kconfig`: the memory, what it answers, and what its last pointer points
at. -/
def loadPskKeyFromKconfig (hex : Option Text) (keyOut : Option ℕ) (keyOutSize : ℕ)
    (keyOutLen : Option ℕ) (m : Mem) : Mem × EspErr × Option ℕ :=
  match keyOut, keyOutLen, hex with
  | some keyOut, some len, some hex =>
    let hexLen := hex.length
    if hexLen = 0 ∨ hexLen % 2 ≠ 0 then (m, .invalidArg, some len)
    else
      let keyLen := hexLen / 2
      if keyLen > keyOutSize then (m, .invalidSize, some len)
      else match loadPskLoop hex keyOut m with
        | (m, .ok) => (m, .ok, some keyLen)
        | (m, err) => (m, err, some len)
  | _, _, _ => (m, .invalidArg, keyOutLen)

/-- What `app_main` makes its Security object from; without a key, it aborts. The key is in an
array of 64 bytes, here at the address 0. -/
def exampleSecurity (hex serverUri identity : Text) : Option SecurityInfo :=
  match loadPskKeyFromKconfig (some hex) (some 0) 64 (some 0) (fun _ => 0) with
  | (pskKey, .ok, some pskKeyLen) => some {
      serverUri := some serverUri
      isBootstrap := false
      mode := .psk
      pubKeyIdentity := some identity
      serverPubKey := none
      secretKey := some (load pskKey 0 pskKeyLen)
      shortServerId := 1 }
  | _ => none

/-! ### The loop -/

theorem hexNibble_eq (c : UInt8) : hexNibble c = (Hex.value c).map UInt8.ofNat := by
  have key : ∀ c : Fin 256, hexNibble (UInt8.ofNat c) =
      (Hex.value (UInt8.ofNat c)).map UInt8.ofNat := by
    decide +kernel
  have h := key ⟨c.toNat, c.toNat_lt⟩
  rwa [UInt8.ofNat_toNat] at h

/-- The halves are put together. -/
theorem shiftLeft_or_eq {x y : ℕ} (hx : x < 16) (hy : y < 16) :
    UInt8.ofNat x <<< 4 ||| UInt8.ofNat y = UInt8.ofNat (16 * x + y) := by
  have key : ∀ x y : Fin 16,
      UInt8.ofNat x <<< 4 ||| UInt8.ofNat y = UInt8.ofNat (16 * x + y) := by
    decide +kernel
  exact key ⟨x, hx⟩ ⟨y, hy⟩

/-- A pair of digits is written as one byte. -/
theorem loadPskLoop_cons {hi lo : UInt8} {x y : ℕ} (hhi : Hex.value hi = some x)
    (hlo : Hex.value lo = some y) (t : Text) (out : ℕ) (m : Mem) :
    loadPskLoop (hi :: lo :: t) out m =
      loadPskLoop t (out + 1) (store m out [UInt8.ofNat (16 * x + y)]) := by
  rw [loadPskLoop, hexNibble_eq, hexNibble_eq, hhi, hlo,
    ← shiftLeft_or_eq (Hex.lt_of_value hhi) (Hex.lt_of_value hlo)]
  rfl

/-- Any other pair ends the loop. -/
theorem loadPskLoop_stop {hi lo : UInt8}
    (hnone : ∀ x y, Hex.value hi = some x → Hex.value lo = some y → False) (t : Text) (out : ℕ)
    (m : Mem) : loadPskLoop (hi :: lo :: t) out m = (m, .invalidArg) := by
  rw [loadPskLoop, hexNibble_eq, hexNibble_eq]
  split
  · next x y hhi hlo =>
    obtain ⟨_, hhi, -⟩ := Option.map_eq_some_iff.mp hhi
    obtain ⟨_, hlo, -⟩ := Option.map_eq_some_iff.mp hlo
    exact (hnone _ _ hhi hlo).elim
  · rfl

/-- **A key that can be read is written.** -/
theorem loadPskLoop_of_decode {t : Text} {key : List UInt8} (h : Hex.decode t = some key)
    (out : ℕ) (m : Mem) : loadPskLoop t out m = (store m out key, .ok) := by
  induction t using Hex.decode.induct generalizing key out m with
  | case1 =>
    obtain rfl := Option.some.inj h
    rw [store_nil]
    rfl
  | case2 => cases h
  | case3 hi lo t x y hlo hhi ih =>
    rw [Hex.decode, hhi, hlo] at h
    obtain ⟨rest, hrest, rfl⟩ := Option.map_eq_some_iff.mp h
    rw [loadPskLoop_cons hhi hlo, ih hrest]
    exact congrArg (Prod.mk · EspErr.ok) (store_store m out [_] rest)
  | case4 hi lo t hnone =>
    rw [Hex.decode] at h
    split at h
    · next x y hhi hlo => exact (hnone x y hhi hlo).elim
    · cases h

/-- **Otherwise it is refused**, if there are whole pairs. -/
theorem loadPskLoop_of_none {t : Text} (h : Hex.decode t = none) (hlen : t.length % 2 = 0)
    (out : ℕ) (m : Mem) : (loadPskLoop t out m).2 = .invalidArg := by
  induction t using Hex.decode.induct generalizing out m with
  | case1 => cases h
  | case2 => cases hlen
  | case3 hi lo t x y hlo hhi ih =>
    rw [Hex.decode, hhi, hlo, Option.map_eq_none_iff] at h
    rw [List.length_cons, List.length_cons] at hlen
    rw [loadPskLoop_cons hhi hlo]
    exact ih h (by omega) _ _
  | case4 hi lo t hnone => rw [loadPskLoop_stop hnone]

/-- **The loop writes** a byte for every pair, at most. -/
theorem writes_loadPskLoop (t : Text) (out : ℕ) :
    Writes out (t.length / 2) (loadPskLoop t out) := by
  induction t using Hex.decode.induct generalizing out with
  | case1 | case2 => exact Writes.pure out _ EspErr.ok
  | case3 hi lo t x y hlo hhi ih =>
    have hlen : (hi :: lo :: t).length / 2 = t.length / 2 + 1 := by
      rw [List.length_cons, List.length_cons]
      omega
    have hstore : Writes out (t.length / 2 + 1) fun m =>
        (store m out [UInt8.ofNat (16 * x + y)], ()) :=
      Writes.store le_rfl (by simp) ()
    have hrest : Writes out (t.length / 2 + 1) (loadPskLoop t (out + 1)) :=
      (ih (out + 1)).of_offset
    rw [hlen]
    exact (hstore.bind fun _ => hrest).congr fun m => loadPskLoop_cons hhi hlo t out m
  | case4 hi lo t hnone =>
    exact (Writes.pure out _ EspErr.invalidArg).congr fun m => loadPskLoop_stop hnone t out m

/-! ### The loader -/

/-- **The key that a text stands for**, in either case, of one byte to `size` bytes. -/
def IsKey (hex : Text) (size : ℕ) (key : List UInt8) : Prop :=
  key ≠ [] ∧ key.length ≤ size ∧ hex.map Hex.lower = Hex.encode key

section Loader

variable {hex : Text} {out size len₀ : ℕ} {m m' : Mem} {key : List UInt8}

theorem isKey_iff : IsKey hex size key ↔
    Hex.decode hex = some key ∧ hex.length ≠ 0 ∧ hex.length / 2 ≤ size := by
  rw [IsKey, ← Hex.decode_eq_some_iff, ← List.length_pos_iff]
  constructor
  · rintro ⟨hne, hsize, hkey⟩
    have hlen := Hex.length_of_decode hkey
    exact ⟨hkey, by omega, by omega⟩
  · rintro ⟨hkey, hne, hsize⟩
    have hlen := Hex.length_of_decode hkey
    exact ⟨by omega, by omega, hkey⟩

/-- **What the loader answers**: the key, if the text has one. -/
theorem loadPskKey_eq_ok_iff {len : Option ℕ} :
    loadPskKeyFromKconfig (some hex) (some out) size (some len₀) m = (m', .ok, len) ↔
      ∃ key, IsKey hex size key ∧ m' = store m out key ∧ len = some key.length := by
  simp only [isKey_iff]
  rw [loadPskKeyFromKconfig]
  dsimp only
  split
  · next hodd =>
    -- no text of this length can be read
    refine iff_of_false nofun ?_
    rintro ⟨key, ⟨hkey, hne, -⟩, -⟩
    have hlen := Hex.length_of_decode hkey
    omega
  · next heven =>
    rw [not_or, not_not] at heven
    split
    · next hsize =>
      refine iff_of_false nofun ?_
      rintro ⟨key, ⟨-, -, hle⟩, -⟩
      omega
    · next hsize =>
      rcases hdecode : Hex.decode hex with _ | key
      · have herr := loadPskLoop_of_none hdecode heven.2 out m
        refine iff_of_false ?_ nofun
        rcases hloop : loadPskLoop hex out m with ⟨m₁, err⟩
        rw [hloop] at herr
        obtain rfl : err = .invalidArg := herr
        exact nofun
      · have hlen := Hex.length_of_decode hdecode
        have hhalf : hex.length / 2 = key.length := by omega
        rw [loadPskLoop_of_decode hdecode, hhalf]
        show (store m out key, EspErr.ok, some key.length) = (m', .ok, len) ↔ _
        constructor
        · intro h
          obtain ⟨hm, h⟩ := Prod.mk.inj h
          obtain ⟨-, hlen'⟩ := Prod.mk.inj h
          exact ⟨key, ⟨rfl, heven.1, by omega⟩, hm.symm, hlen'.symm⟩
        · rintro ⟨_, ⟨⟨⟩, -⟩, rfl, rfl⟩
          rfl

/-- Otherwise the length is left as it is. -/
theorem loadPskKey_len
    (h : (loadPskKeyFromKconfig (some hex) (some out) size (some len₀) m).2.1 ≠ .ok) :
    (loadPskKeyFromKconfig (some hex) (some out) size (some len₀) m).2.2 = some len₀ := by
  rw [loadPskKeyFromKconfig] at h ⊢
  dsimp only at h ⊢
  split_ifs at h ⊢
  · rfl
  · rfl
  · rcases hloop : loadPskLoop hex out m with ⟨m₁, err⟩
    rw [hloop] at h
    cases err with
    | ok => exact absurd rfl h
    | _ => rfl

/-- **What the loader writes**: nothing outside the buffer. -/
theorem writes_loadPskKey :
    Writes out size (loadPskKeyFromKconfig (some hex) (some out) size (some len₀)) := by
  unfold loadPskKeyFromKconfig
  dsimp only
  split_ifs with hodd hsize
  · exact Writes.pure out size _
  · exact Writes.pure out size _
  · have hloop : Writes out size (loadPskLoop hex out) := by
      obtain ⟨p, r, hp, hf⟩ := writes_loadPskLoop hex out
      exact ⟨p, r, fun i hi => hp i (by omega), hf⟩
    refine (hloop.bind (g := fun err m =>
      (m, err, if err = .ok then some (hex.length / 2) else some len₀))
        fun err => Writes.pure out size _).congr fun m => ?_
    rcases loadPskLoop hex out m with ⟨m₁, err⟩
    cases err <;> rfl

end Loader

/-! ### The Security object -/

/-- The example has a Security object exactly if it has a key, and with this key. -/
theorem exampleSecurity_eq_some_iff {hex serverUri identity : Text} {info : SecurityInfo} :
    exampleSecurity hex serverUri identity = some info ↔ ∃ key, IsKey hex 64 key ∧
      info = ⟨some serverUri, false, .psk, some identity, none, some key, 1⟩ := by
  rw [exampleSecurity]
  constructor
  · intro h
    split at h
    · next m len hload =>
      obtain ⟨key, hkey, rfl, hlen⟩ := loadPskKey_eq_ok_iff.mp hload
      obtain rfl := Option.some.inj hlen
      obtain rfl := Option.some.inj h
      exact ⟨key, hkey, by rw [load_store]⟩
    · cases h
  · rintro ⟨key, hkey, rfl⟩
    have hload : loadPskKeyFromKconfig (some hex) (some 0) 64 (some 0) (fun _ => 0) =
        (store (fun _ => 0) 0 key, .ok, some key.length) :=
      loadPskKey_eq_ok_iff.mpr ⟨key, hkey, rfl, rfl⟩
    rw [hload]
    dsimp only
    rw [load_store]

/-- What a reader that knows the types finds of the key, in a payload of the Security object. -/
def ReadsKey (fp : FloatOps) (info : SecurityInfo) (key : List UInt8) : Prop :=
  ∀ (m : Mem) (buf bufSize : ℕ) (m' : Mem) (n : ℕ) (s' : Unit),
    tlvEncodeInstance fp (createSecurityObject (κ := Unit) info 0) 0 m buf bufSize () =
        ((m', some n), s') →
      ∃ rds, readByTypes fp 0 m' buf n = some rds ∧ rds.lookup 5 = some (.opaqueData key)

theorem readsKey (fp : FloatOps) {info : SecurityInfo} {key : List UInt8}
    (hkey : info.secretKey = some key) : ReadsKey fp info key := by
  have hobj : (StdObject.security info 0).create ⟨fun _ => (0, ()), fun _ => (0, ())⟩ =
      some (createSecurityObject (κ := Unit) info 0) := rfl
  intro m buf bufSize m' n s' h
  have hdocumented := StdObject.documentedReadings hobj (fun _ h => nomatch h) 0 ()
  have hread := (readByTypes_encodeInstance h).mpr hdocumented
  rw [StdObject.readings_of_configuration rfl hobj] at hread
  refine ⟨_, hread, ?_⟩
  show some (Value.opaqueData (info.secretKey.getD [])) = _
  rw [hkey]
  rfl

/-- **The key of the example.** The loader takes a text exactly if it is the hexadecimal text, in
either case, of a key that is not empty and fits; it writes this key, says how long it is, and
touches nothing else. Whatever text it is given, it writes nothing outside the buffer, and no
length unless it takes it. The example starts exactly with a text of a key of 64 bytes at most,
and it is this key that a server reads in every payload of its Security object. -/
theorem psk_key_loaded_iff (fp : FloatOps) (hex : Text) :
    (∀ out size len₀ m m' len,
      loadPskKeyFromKconfig (some hex) (some out) size (some len₀) m = (m', .ok, len) ↔
        ∃ key, IsKey hex size key ∧ m' = store m out key ∧ len = some key.length) ∧
    (∀ out size len₀,
      Writes out size (loadPskKeyFromKconfig (some hex) (some out) size (some len₀)) ∧
      ∀ m, (loadPskKeyFromKconfig (some hex) (some out) size (some len₀) m).2.1 ≠ .ok →
        (loadPskKeyFromKconfig (some hex) (some out) size (some len₀) m).2.2 = some len₀) ∧
    ∀ serverUri identity,
      ((exampleSecurity hex serverUri identity).isSome ↔ ∃ key, IsKey hex 64 key) ∧
      ∀ info key, exampleSecurity hex serverUri identity = some info → IsKey hex 64 key →
        ReadsKey fp info key := by
  refine ⟨fun out size len₀ m m' len => loadPskKey_eq_ok_iff,
    fun out size len₀ => ⟨writes_loadPskKey, fun m => loadPskKey_len⟩,
    fun serverUri identity => ⟨?_, ?_⟩⟩
  · rw [Option.isSome_iff_exists]
    constructor
    · rintro ⟨info, hinfo⟩
      obtain ⟨key, hkey, -⟩ := exampleSecurity_eq_some_iff.mp hinfo
      exact ⟨key, hkey⟩
    · rintro ⟨key, hkey⟩
      exact ⟨_, exampleSecurity_eq_some_iff.mpr ⟨key, hkey, rfl⟩⟩
  · intro info key hinfo hkey
    obtain ⟨key', hkey', rfl⟩ := exampleSecurity_eq_some_iff.mp hinfo
    -- a text is the text of one key
    obtain rfl : key' = key :=
      Option.some.inj ((isKey_iff.mp hkey').1.symm.trans (isKey_iff.mp hkey).1)
    exact readsKey fp rfl

/-- Capitals and small letters alike. -/
example : Hex.decode (ascii "00cAFe") = some [0x00, 0xCA, 0xFE] := by decide

end WbLwm2m
