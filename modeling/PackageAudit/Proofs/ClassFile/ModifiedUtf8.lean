/-
Texts are read as they were written.

Constants hold texts in UTF-16 code units, one to three bytes a unit.  `encode` writes units down
in this form, and it is shown that `decode` gives back what the units stand for.

There are two ways through `decode`.  Read unit by unit, the bytes give the units back, whichever
they are.  Read as UTF-8, they give a text only if no unit is 0 or a surrogate: unit 0 is written
in an overlong form, and a surrogate on its own is no character, so both leave a malformed part
behind.  And where all units are of the other kind, each of them is written as UTF-8 writes the
character with its number, so there the two ways agree.
-/
import PackageAudit.ClassFile.ModifiedUtf8
import PackageAudit.Proofs.Traversal

namespace PackageAudit

/-! ### What units stand for -/

namespace Text.Utf16

/-- The units of a character: its number, or a surrogate pair if that has more than 16 bits. -/
def encodeChar (c : Char) : List UInt16 :=
  if c.toNat < 0x10000 then [UInt16.ofNat c.toNat]
  else [UInt16.ofNat (0xD800 + (c.toNat - 0x10000) / 1024),
    UInt16.ofNat (0xDC00 + (c.toNat - 0x10000) % 1024)]

/-- The units of a text. -/
def encode (text : List Char) : List UInt16 := text.flatMap encodeChar

/-- The units of a character stand for it, and a unit with which no character starts stands for
the replacement character. -/
inductive StandsFor : List UInt16 → List Char → Prop
  | nil : StandsFor [] []
  | char (c : Char) {units : List UInt16} {text : List Char} :
      StandsFor units text → StandsFor (encodeChar c ++ units) (c :: text)
  | lone {unit : UInt16} {units : List UInt16} {text : List Char} :
      (∀ c rest, unit :: units ≠ encodeChar c ++ rest) → StandsFor units text →
      StandsFor (unit :: units) (replacement :: text)

theorem isHigh_iff {unit : UInt16} :
    isHigh unit = true ↔ 0xD800 ≤ unit.toNat ∧ unit.toNat < 0xDC00 := by
  simp [isHigh]

theorem isLow_iff {unit : UInt16} :
    isLow unit = true ↔ 0xDC00 ≤ unit.toNat ∧ unit.toNat < 0xE000 := by
  simp [isLow]

theorem toNat_char (c : Char) : c.toNat < 0xD800 ∨ 0xDFFF < c.toNat ∧ c.toNat < 0x110000 :=
  c.valid

theorem toNat_ofNat {n : Nat} (h : n < 0xD800 ∨ 0xDFFF < n ∧ n < 0x110000) :
    (Char.ofNat n).toNat = n := by
  have hvalid : n.isValidChar := h
  rw [Char.ofNat, dif_pos hvalid]
  rfl

/-- A character has one unit that is no surrogate, or a high surrogate and a low one. -/
theorem encodeChar_cases (c : Char) :
    (∃ unit, encodeChar c = [unit] ∧ unit.toNat = c.toNat ∧ isHigh unit = false
        ∧ isLow unit = false)
      ∨ ∃ high low, encodeChar c = [high, low] ∧ isHigh high = true ∧ isLow low = true
        ∧ pairChar high low = c := by
  have hrange := toNat_char c
  unfold encodeChar
  by_cases hsmall : c.toNat < 0x10000
  · have hunit : (UInt16.ofNat c.toNat).toNat = c.toNat := UInt16.toNat_ofNat_of_lt' hsmall
    refine .inl ⟨_, if_pos hsmall, hunit, ?_, ?_⟩
    · rw [← Bool.not_eq_true, isHigh_iff, hunit]
      omega
    · rw [← Bool.not_eq_true, isLow_iff, hunit]
      omega
  · have hhigh : (UInt16.ofNat (0xD800 + (c.toNat - 0x10000) / 1024)).toNat
        = 0xD800 + (c.toNat - 0x10000) / 1024 := UInt16.toNat_ofNat_of_lt' (by
      show _ < 65536
      omega)
    have hlow : (UInt16.ofNat (0xDC00 + (c.toNat - 0x10000) % 1024)).toNat
        = 0xDC00 + (c.toNat - 0x10000) % 1024 := UInt16.toNat_ofNat_of_lt' (by
      show _ < 65536
      omega)
    refine .inr ⟨_, _, if_neg hsmall, ?_, ?_, ?_⟩
    · rw [isHigh_iff, hhigh]
      omega
    · rw [isLow_iff, hlow]
      omega
    · rw [pairChar, hhigh, hlow]
      have hnumber : 0x10000 + (0xD800 + (c.toNat - 0x10000) / 1024) % 1024 * 1024
          + (0xDC00 + (c.toNat - 0x10000) % 1024) % 1024 = c.toNat := by omega
      rw [hnumber, Char.ofNat_toNat]

theorem ofNat_eq (unit : UInt16) {n : Nat} (h : n = unit.toNat) : UInt16.ofNat n = unit := by
  rw [h, UInt16.ofNat_toNat]

theorem encodeChar_ofNat {unit : UInt16} (hhigh : isHigh unit = false) (hlow : isLow unit = false) :
    encodeChar (Char.ofNat unit.toNat) = [unit] := by
  have hlt := unit.toNat_lt
  rw [← Bool.not_eq_true, isHigh_iff] at hhigh
  rw [← Bool.not_eq_true, isLow_iff] at hlow
  rw [encodeChar, toNat_ofNat (by omega), if_pos hlt, UInt16.ofNat_toNat]

theorem encodeChar_pairChar {high low : UInt16} (hhigh : isHigh high = true)
    (hlow : isLow low = true) : encodeChar (pairChar high low) = [high, low] := by
  rw [isHigh_iff] at hhigh
  rw [isLow_iff] at hlow
  have hnumber : (pairChar high low).toNat
      = 0x10000 + high.toNat % 1024 * 1024 + low.toNat % 1024 := toNat_ofNat (by omega)
  rw [encodeChar, hnumber, if_neg (by omega)]
  rw [ofNat_eq high (by omega), ofNat_eq low (by omega)]

/-! ### Reading units -/

theorem decodeLossy_pair {high low : UInt16} (hhigh : isHigh high = true) (hlow : isLow low = true)
    (units : List UInt16) :
    decodeLossy (high :: low :: units) = pairChar high low :: decodeLossy units := by
  rw [decodeLossy.eq_def]
  simp only [hhigh, hlow, if_true]

theorem decodeLossy_plain {unit : UInt16} (hhigh : isHigh unit = false) (hlow : isLow unit = false)
    (units : List UInt16) :
    decodeLossy (unit :: units) = Char.ofNat unit.toNat :: decodeLossy units := by
  rw [decodeLossy.eq_def]
  simp [hhigh, hlow]

theorem decodeLossy_encodeChar (c : Char) (units : List UInt16) :
    decodeLossy (encodeChar c ++ units) = c :: decodeLossy units := by
  rcases encodeChar_cases c with ⟨unit, hunits, hunit, hhigh, hlow⟩ |
    ⟨high, low, hunits, hhigh, hlow, hpair⟩
  · rw [hunits, List.singleton_append, decodeLossy_plain hhigh hlow, hunit, Char.ofNat_toNat]
  · rw [hunits, List.cons_append, List.singleton_append, decodeLossy_pair hhigh hlow, hpair]

/-- A unit with which no character starts is replaced on its own. -/
theorem decodeLossy_lone {unit : UInt16} {units : List UInt16}
    (h : ∀ c rest, unit :: units ≠ encodeChar c ++ rest) :
    decodeLossy (unit :: units) = replacement :: decodeLossy units := by
  rw [decodeLossy.eq_def]
  cases hhigh : isHigh unit with
  | true =>
      cases units with
      | nil => simp [hhigh, decodeLossy]
      | cons next rest =>
          have hnext : isLow next = false := by
            rw [← Bool.not_eq_true]
            intro hlow
            apply h (pairChar unit next) rest
            rw [encodeChar_pairChar hhigh hlow]
            rfl
          simp [hhigh, hnext]
  | false =>
      have hlow : isLow unit = true := by
        rw [← Bool.not_eq_false]
        intro hlow
        apply h (Char.ofNat unit.toNat) units
        rw [encodeChar_ofNat hhigh hlow]
        rfl
      simp [hhigh, hlow]

theorem standsFor_decodeLossy (units : List UInt16) : StandsFor units (decodeLossy units) := by
  -- A character takes one unit or two, so the induction is on the length.
  induction hlength : units.length using Nat.strongRecOn generalizing units with
  | ind length ih =>
      cases units with
      | nil => exact .nil
      | cons unit units =>
          by_cases hchar : ∃ c rest, unit :: units = encodeChar c ++ rest
          · obtain ⟨c, rest, heq⟩ := hchar
            have hshorter : rest.length < length := by
              have hpos : 0 < (encodeChar c).length := by
                unfold encodeChar
                split <;> simp
              rw [← hlength, heq, List.length_append]
              omega
            rw [heq, decodeLossy_encodeChar]
            exact .char c (ih _ hshorter rest rfl)
          · have hlone : ∀ c rest, unit :: units ≠ encodeChar c ++ rest :=
              fun c rest heq => hchar ⟨c, rest, heq⟩
            rw [decodeLossy_lone hlone]
            exact .lone hlone (ih _ (by rw [← hlength, List.length_cons]; omega) units rfl)

theorem decodeLossy_eq_iff {units : List UInt16} {text : List Char} :
    decodeLossy units = text ↔ StandsFor units text := by
  refine ⟨?_, ?_⟩
  · rintro rfl
    exact standsFor_decodeLossy units
  · intro h
    induction h with
    | nil => rfl
    | char c _ ih => rw [decodeLossy_encodeChar, ih]
    | lone hlone _ ih => rw [decodeLossy_lone hlone, ih]

theorem decodeLossy_encode (text : List Char) : decodeLossy (encode text) = text := by
  induction text with
  | nil => rfl
  | cons c rest ih => rw [encode, List.flatMap_cons, decodeLossy_encodeChar, ← encode, ih]

end Text.Utf16

/-! ### Characters in UTF-8 -/

namespace Text.Utf8

theorem isContinuation_iff {b : UInt8} :
    isContinuation b = true ↔ 0x80 ≤ b.toNat ∧ b.toNat < 0xC0 := by
  simp [isContinuation]

theorem scan_one {b : UInt8} (hb : b.toNat < 0x80) (rest : List UInt8) :
    scan (b :: rest) = some (Char.ofNat b.toNat) :: scan rest := by
  rw [scan.eq_def]
  simp only [if_pos hb]

theorem scan_two {b c : UInt8} (hb : 0xC2 ≤ b.toNat ∧ b.toNat < 0xE0)
    (hc : isContinuation c = true) (rest : List UInt8) :
    scan (b :: c :: rest)
      = some (Char.ofNat (b.toNat % 32 * 64 + c.toNat % 64)) :: scan rest := by
  have hone : ¬ b.toNat < 0x80 := by omega
  rw [scan.eq_def]
  simp [hone, hb, hc]

theorem scan_three {b c d : UInt8} (hb : 0xE0 ≤ b.toNat ∧ b.toNat < 0xF0)
    (hc : isSecondOfThree b c = true) (hd : isContinuation d = true) (rest : List UInt8) :
    scan (b :: c :: d :: rest)
      = some (Char.ofNat (b.toNat % 16 * 4096 + c.toNat % 64 * 64 + d.toNat % 64))
        :: scan rest := by
  have hone : ¬ b.toNat < 0x80 := by omega
  have htwo : ¬ b.toNat < 0xE0 := by omega
  rw [scan.eq_def]
  simp [hone, htwo, hb, hc, hd]

/-- An overlong form of two bytes is no character. -/
theorem scan_overlong {b : UInt8} (hb : 0x80 ≤ b.toNat ∧ b.toNat < 0xC2) (rest : List UInt8) :
    scan (b :: rest) = none :: scan rest := by
  have hone : ¬ b.toNat < 0x80 := by omega
  have htwo : ¬ 0xC2 ≤ b.toNat := by omega
  have hthree : ¬ 0xE0 ≤ b.toNat := by omega
  have hfour : ¬ 0xF0 ≤ b.toNat := by omega
  rw [scan.eq_def]
  simp [hone, htwo, hthree, hfour]

theorem scan_malformed {b c : UInt8} (hb : 0xE0 ≤ b.toNat ∧ b.toNat < 0xF0)
    (hc : isSecondOfThree b c = false) (rest : List UInt8) :
    scan (b :: c :: rest) = none :: scan (c :: rest) := by
  have hone : ¬ b.toNat < 0x80 := by omega
  have htwo : ¬ b.toNat < 0xE0 := by omega
  rw [scan.eq_def]
  simp [hone, htwo, hb, hc]

theorem isSecondOfThree_iff {b c : UInt8} :
    isSecondOfThree b c = true ↔ (0x80 ≤ c.toNat ∧ c.toNat < 0xC0)
      ∧ (b.toNat = 0xE0 → 0xA0 ≤ c.toNat) ∧ (b.toNat = 0xED → c.toNat < 0xA0) := by
  unfold isSecondOfThree
  split
  · simp; omega
  · split
    · simp; omega
    · rw [isContinuation_iff]; omega

/-- A byte sequence is UTF-8 if all its parts are characters. -/
theorem decode?_eq_some_iff {bytes : List UInt8} {text : String} :
    decode? bytes = some text ↔ scan bytes = text.toList.map some := by
  rw [decode?, Option.map_eq_some_iff]
  simp only [mapM_eq_some_iff, List.map_id]
  refine ⟨?_, fun h => ⟨text.toList, h, String.ofList_toList⟩⟩
  rintro ⟨chars, hparts, rfl⟩
  rw [hparts, String.toList_ofList]

end Text.Utf8

/-! ### Units in bytes -/

namespace ModifiedUtf8

open Text

/-- The bytes of a unit. -/
def encodeUnit (unit : UInt16) : List UInt8 :=
  if unit.toNat = 0 then [0xC0, 0x80]
  else if unit.toNat < 0x80 then [UInt8.ofNat unit.toNat]
  else if unit.toNat < 0x800 then
    [UInt8.ofNat (0xC0 + unit.toNat / 64), UInt8.ofNat (0x80 + unit.toNat % 64)]
  else
    [UInt8.ofNat (0xE0 + unit.toNat / 4096), UInt8.ofNat (0x80 + unit.toNat / 64 % 64),
      UInt8.ofNat (0x80 + unit.toNat % 64)]

/-- The bytes of a sequence of units. -/
def encode (units : List UInt16) : List UInt8 := units.flatMap encodeUnit

/-- The units that are written as UTF-8 writes the character with their number: all but 0 and the
surrogates. -/
def IsPlain (unit : UInt16) : Prop :=
  unit.toNat ≠ 0 ∧ Utf16.isHigh unit = false ∧ Utf16.isLow unit = false

/-- The bytes of a unit by their values.  Unit 0 is written like the units with two bytes. -/
theorem encodeUnit_cases (unit : UInt16) :
    (∃ b, encodeUnit unit = [b] ∧ b.toNat = unit.toNat ∧ unit.toNat ≠ 0 ∧ unit.toNat < 0x80)
      ∨ (∃ b c, encodeUnit unit = [b, c] ∧ b.toNat = 0xC0 + unit.toNat / 64
        ∧ c.toNat = 0x80 + unit.toNat % 64
        ∧ (unit.toNat = 0 ∨ 0x80 ≤ unit.toNat ∧ unit.toNat < 0x800))
      ∨ ∃ b c d, encodeUnit unit = [b, c, d] ∧ b.toNat = 0xE0 + unit.toNat / 4096
        ∧ c.toNat = 0x80 + unit.toNat / 64 % 64 ∧ d.toNat = 0x80 + unit.toNat % 64
        ∧ 0x800 ≤ unit.toNat := by
  have hbyte : ∀ {n : Nat}, n < 256 → (UInt8.ofNat n).toNat = n := UInt8.toNat_ofNat_of_lt'
  have hlt := unit.toNat_lt
  unfold encodeUnit
  split
  · rename_i hzero
    exact .inr (.inl ⟨_, _, rfl, by rw [hzero]; rfl, by rw [hzero]; rfl, .inl hzero⟩)
  · split
    · exact .inl ⟨_, rfl, hbyte (by omega), ‹_›, ‹_›⟩
    · split
      · exact .inr (.inl ⟨_, _, rfl, hbyte (by omega), hbyte (by omega), .inr (by omega)⟩)
      · exact .inr (.inr ⟨_, _, _, rfl, hbyte (by omega), hbyte (by omega), hbyte (by omega),
          by omega⟩)

theorem units_one {b : UInt8} (hb : b.toNat < 0x80) (rest : List UInt8) :
    units (b :: rest) = UInt16.ofNat b.toNat :: units rest := by
  rw [units.eq_def]
  simp only [if_pos hb]

theorem units_two {b c : UInt8} (hb : 0xC0 ≤ b.toNat ∧ b.toNat < 0xE0)
    (hc : Utf8.isContinuation c = true) (rest : List UInt8) :
    units (b :: c :: rest) = UInt16.ofNat (b.toNat % 32 * 64 + c.toNat % 64) :: units rest := by
  have hone : ¬ b.toNat < 0x80 := by omega
  rw [units.eq_def]
  simp [hone, hb, hc]

theorem units_three {b c d : UInt8} (hb : 0xE0 ≤ b.toNat ∧ b.toNat < 0xF0)
    (hc : Utf8.isContinuation c = true) (hd : Utf8.isContinuation d = true) (rest : List UInt8) :
    units (b :: c :: d :: rest)
      = UInt16.ofNat (b.toNat % 16 * 4096 + c.toNat % 64 * 64 + d.toNat % 64) :: units rest := by
  have hone : ¬ b.toNat < 0x80 := by omega
  have htwo : ¬ b.toNat < 0xE0 := by omega
  rw [units.eq_def]
  simp [hone, htwo, hb, hc, hd]

/-- The bytes of a unit are read back as the unit. -/
theorem units_encodeUnit (unit : UInt16) (rest : List UInt8) :
    units (encodeUnit unit ++ rest) = unit :: units rest := by
  have hlt := unit.toNat_lt
  rcases encodeUnit_cases unit with ⟨b, hbytes, hb, -, hsmall⟩ | ⟨b, c, hbytes, hb, hc, hsmall⟩ |
    ⟨b, c, d, hbytes, hb, hc, hd, -⟩
  · rw [hbytes, List.singleton_append, units_one (by omega), Utf16.ofNat_eq unit hb]
  · rw [hbytes, List.cons_append, List.singleton_append,
      units_two (by omega) (Utf8.isContinuation_iff.mpr (by omega)),
      Utf16.ofNat_eq unit (by omega)]
  · rw [hbytes, List.cons_append, List.cons_append, List.singleton_append,
      units_three (by omega) (Utf8.isContinuation_iff.mpr (by omega))
        (Utf8.isContinuation_iff.mpr (by omega)),
      Utf16.ofNat_eq unit (by omega)]

theorem units_encode (us : List UInt16) : units (encode us) = us := by
  induction us with
  | nil => rfl
  | cons unit rest ih => rw [encode, List.flatMap_cons, units_encodeUnit, ← encode, ih]

/-- A plain unit is written as UTF-8 writes the character with its number. -/
theorem scan_encodeUnit {unit : UInt16} (h : IsPlain unit) (rest : List UInt8) :
    Utf8.scan (encodeUnit unit ++ rest) = some (Char.ofNat unit.toNat) :: Utf8.scan rest := by
  have hlt := unit.toNat_lt
  obtain ⟨hzero, hhigh, hlow⟩ := h
  rw [← Bool.not_eq_true, Utf16.isHigh_iff] at hhigh
  rw [← Bool.not_eq_true, Utf16.isLow_iff] at hlow
  rcases encodeUnit_cases unit with ⟨b, hbytes, hb, -, hsmall⟩ | ⟨b, c, hbytes, hb, hc, hsmall⟩ |
    ⟨b, c, d, hbytes, hb, hc, hd, hlarge⟩
  · rw [hbytes, List.singleton_append, Utf8.scan_one (by omega), hb]
  · have hnumber : b.toNat % 32 * 64 + c.toNat % 64 = unit.toNat := by omega
    rw [hbytes, List.cons_append, List.singleton_append,
      Utf8.scan_two (by omega) (Utf8.isContinuation_iff.mpr (by omega)), hnumber]
  · have hnumber : b.toNat % 16 * 4096 + c.toNat % 64 * 64 + d.toNat % 64 = unit.toNat := by omega
    rw [hbytes, List.cons_append, List.cons_append, List.singleton_append,
      Utf8.scan_three (by omega) (Utf8.isSecondOfThree_iff.mpr (by omega))
        (Utf8.isContinuation_iff.mpr (by omega)), hnumber]

/-- Any other unit leaves a malformed part. -/
theorem none_mem_scan_encodeUnit {unit : UInt16} (h : ¬ IsPlain unit) (rest : List UInt8) :
    none ∈ Utf8.scan (encodeUnit unit ++ rest) := by
  have hlt := unit.toNat_lt
  have hrange : unit.toNat = 0 ∨ 0xD800 ≤ unit.toNat ∧ unit.toNat < 0xE000 := by
    simp only [IsPlain, ← Bool.not_eq_true, Utf16.isHigh_iff, Utf16.isLow_iff] at h
    omega
  rcases encodeUnit_cases unit with ⟨b, hbytes, hb, hzero, hsmall⟩ |
    ⟨b, c, hbytes, hb, hc, hsmall⟩ | ⟨b, c, d, hbytes, hb, hc, hd, hlarge⟩
  · omega
  · -- Of these units only 0 is not plain, and its first byte starts no character.
    rw [hbytes, List.cons_append, Utf8.scan_overlong (by omega)]
    exact List.mem_cons_self
  · -- A surrogate starts with `0xED`, behind which its second byte is too large.
    have hsecond : Utf8.isSecondOfThree b c = false := by
      rw [← Bool.not_eq_true, Utf8.isSecondOfThree_iff]
      omega
    rw [hbytes, List.cons_append, List.cons_append, Utf8.scan_malformed (by omega) hsecond]
    exact List.mem_cons_self

/-! ### The two ways to read a text -/

variable {us : List UInt16}

theorem scan_encode (h : ∀ unit ∈ us, IsPlain unit) :
    Utf8.scan (encode us) = (Utf16.decodeLossy us).map some := by
  induction us with
  | nil => rfl
  | cons unit rest ih =>
      obtain ⟨hunit, hrest⟩ := List.forall_mem_cons.mp h
      rw [encode, List.flatMap_cons, scan_encodeUnit hunit, ← encode, ih hrest,
        Utf16.decodeLossy_plain hunit.2.1 hunit.2.2, List.map_cons]

theorem none_mem_scan_encode {unit : UInt16} (hmem : unit ∈ us) (h : ¬ IsPlain unit) :
    none ∈ Utf8.scan (encode us) := by
  induction us with
  | nil => exact absurd hmem List.not_mem_nil
  | cons first rest ih =>
      rw [encode, List.flatMap_cons]
      by_cases hfirst : IsPlain first
      · rw [scan_encodeUnit hfirst]
        rcases List.mem_cons.mp hmem with rfl | hmem
        · exact absurd hfirst h
        · exact List.mem_cons_of_mem _ (ih hmem)
      · exact none_mem_scan_encodeUnit hfirst _

theorem decode?_encode_of_plain (h : ∀ unit ∈ us, IsPlain unit) :
    Utf8.decode? (encode us) = some (String.ofList (Utf16.decodeLossy us)) := by
  rw [Utf8.decode?_eq_some_iff, String.toList_ofList, scan_encode h]

theorem decode?_encode_of_not_plain {unit : UInt16} (hmem : unit ∈ us) (h : ¬ IsPlain unit) :
    Utf8.decode? (encode us) = none := by
  rw [Option.eq_none_iff_forall_ne_some]
  intro text htext
  have hnone := none_mem_scan_encode hmem h
  rw [Utf8.decode?_eq_some_iff.mp htext] at hnone
  simp at hnone

theorem decode_encode_eq (us : List UInt16) :
    decode (encode us) = String.ofList (Utf16.decodeLossy us) := by
  unfold decode
  by_cases hplain : ∀ unit ∈ us, IsPlain unit
  · rw [decode?_encode_of_plain hplain]
  · simp only [not_forall] at hplain
    obtain ⟨unit, hmem, hunit⟩ := hplain
    rw [decode?_encode_of_not_plain hmem hunit, units_encode]

theorem exists_decode?_encode (us : List UInt16) :
    (∃ text, Utf8.decode? (encode us) = some text) ↔ ∀ unit ∈ us, IsPlain unit := by
  refine ⟨?_, fun hplain => ⟨_, decode?_encode_of_plain hplain⟩⟩
  rintro ⟨text, htext⟩ unit hmem
  by_contra hunit
  rw [decode?_encode_of_not_plain hmem hunit] at htext
  cases htext

/-- **What is written in units is read as the text that they stand for.**  The bytes are taken for
UTF-8 exactly if no unit is 0 or a surrogate, and reading them unit by unit always gives the same
text.  In particular every text is recovered. -/
theorem decode_encode (us : List UInt16) :
    decode (encode us) = String.ofList (Utf16.decodeLossy us)
      ∧ (∀ text, decode (encode us) = String.ofList text ↔ Utf16.StandsFor us text)
      ∧ ((∃ text, Utf8.decode? (encode us) = some text) ↔ ∀ unit ∈ us, IsPlain unit)
      ∧ String.ofList (Utf16.decodeLossy (units (encode us))) = decode (encode us)
      ∧ ∀ text : String, decode (encode (Utf16.encode text.toList)) = text := by
  refine ⟨decode_encode_eq us, ?_, exists_decode?_encode us, ?_, ?_⟩
  · intro text
    rw [decode_encode_eq, String.ofList_inj, Utf16.decodeLossy_eq_iff]
  · rw [units_encode, decode_encode_eq]
  · intro text
    rw [decode_encode_eq, Utf16.decodeLossy_encode, String.ofList_toList]

-- Unit 0 in its overlong form, and a surrogate pair as two units.
example : encode [0x61, 0, 0xD83D, 0xDE00]
    = [0x61, 0xC0, 0x80, 0xED, 0xA0, 0xBD, 0xED, 0xB8, 0x80] := by decide

end ModifiedUtf8

end PackageAudit
