import Asm68k.Proofs.Bytes
import Asm68k.Rune.Space

/-!
Runes of byte strings. Writing the runes of a text gives the text back (`flatMap_toBytes_ofBytes`),
and ASCII bytes cut a text into parts that read independently.
-/

namespace Asm68k

namespace Rune

/-! ### Writing what was read -/

theorem continuation?_eq_some {b : UInt8} {x : Nat} (h : continuation? b = some x) :
    b.toNat = x + 128 ∧ x < 64 := by
  unfold continuation? at h
  split at h
  · rename_i range
    have value := Option.some.inj h
    omega
  · cases h

theorem scalar?_eq_some {least n : Nat} {c : Char} (h : scalar? least n = some c) :
    least ≤ n ∧ c.val.toNat = n := by
  unfold scalar? at h
  by_cases valid : least ≤ n ∧ n.isValidChar
  · rw [dif_pos valid] at h
    cases h
    exact ⟨valid.1, rfl⟩
  · rw [dif_neg valid] at h
    cases h

theorem ofNat_eq {b : UInt8} {n : Nat} (h : n = b.toNat) : UInt8.ofNat n = b := by
  rw [h, UInt8.ofNat_toNat]

/-- The bytes of a scalar value that is read are its encoding. -/
theorem scalarAt?_encode {lead : UInt8} {rest : Bytes} {c : Char} {length : Nat}
    (h : scalarAt? lead rest = some (c, length)) :
    length ≤ rest.length ∧ String.utf8EncodeChar c = lead :: rest.take length := by
  unfold scalarAt? at h
  dsimp only at h
  unfold String.utf8EncodeChar
  dsimp only
  -- One case for each length; the least value of a length rules the shorter encodings out.
  split at h
  · obtain ⟨d, scalar, same⟩ := Option.map_eq_some_iff.mp h
    cases same
    obtain ⟨-, value⟩ := scalar?_eq_some scalar
    rw [value, if_pos (by omega), ofNat_eq rfl, List.take_zero]
    exact ⟨Nat.zero_le _, rfl⟩
  split at h
  · cases h
  split at h
  · match rest with
    | [] => cases h
    | b :: rest =>
      obtain ⟨x, continued, h⟩ := Option.bind_eq_some_iff.mp h
      obtain ⟨d, scalar, h⟩ := Option.bind_eq_some_iff.mp h
      cases h
      have ⟨least, value⟩ := scalar?_eq_some scalar
      have ⟨byte, small⟩ := continuation?_eq_some continued
      rw [value, if_neg (by omega), if_pos (by omega), ofNat_eq (b := lead) (by omega),
        ofNat_eq (b := b) (by omega)]
      exact ⟨Nat.le_add_left _ _, rfl⟩
  split at h
  · match rest with
    | [] | [_] => cases h
    | b :: b' :: rest =>
      obtain ⟨x, continued, h⟩ := Option.bind_eq_some_iff.mp h
      obtain ⟨x', continued', h⟩ := Option.bind_eq_some_iff.mp h
      obtain ⟨d, scalar, h⟩ := Option.bind_eq_some_iff.mp h
      cases h
      have ⟨least, value⟩ := scalar?_eq_some scalar
      have ⟨byte, small⟩ := continuation?_eq_some continued
      have ⟨byte', small'⟩ := continuation?_eq_some continued'
      rw [value, if_neg (by omega), if_neg (by omega), if_pos (by omega),
        ofNat_eq (b := lead) (by omega), ofNat_eq (b := b) (by omega),
        ofNat_eq (b := b') (by omega)]
      exact ⟨Nat.le_add_left _ _, rfl⟩
  split at h
  · match rest with
    | [] | [_] | [_, _] => cases h
    | b :: b' :: b'' :: rest =>
      obtain ⟨x, continued, h⟩ := Option.bind_eq_some_iff.mp h
      obtain ⟨x', continued', h⟩ := Option.bind_eq_some_iff.mp h
      obtain ⟨x'', continued'', h⟩ := Option.bind_eq_some_iff.mp h
      obtain ⟨d, scalar, h⟩ := Option.bind_eq_some_iff.mp h
      cases h
      have ⟨least, value⟩ := scalar?_eq_some scalar
      have ⟨byte, small⟩ := continuation?_eq_some continued
      have ⟨byte', small'⟩ := continuation?_eq_some continued'
      have ⟨byte'', small''⟩ := continuation?_eq_some continued''
      rw [value, if_neg (by omega), if_neg (by omega), if_neg (by omega),
        ofNat_eq (b := lead) (by omega), ofNat_eq (b := b) (by omega),
        ofNat_eq (b := b') (by omega), ofNat_eq (b := b'') (by omega)]
      exact ⟨Nat.le_add_left _ _, rfl⟩
  · cases h

theorem flatMap_toBytes_go (skip : Nat) (text : Bytes) :
    (ofBytes.go skip text).flatMap toBytes = text.drop skip := by
  induction text generalizing skip with
  | nil => cases skip <;> rfl
  | cons b rest ih =>
    cases skip with
    | succ skip => exact ih skip
    | zero =>
      rw [ofBytes.go]
      split
      · rename_i c length read
        rw [List.flatMap_cons, ih, toBytes, (scalarAt?_encode read).2, List.cons_append,
          List.take_append_drop, List.drop_zero]
      · rw [List.flatMap_cons, ih]
        rfl

theorem flatMap_toBytes_ofBytes (text : Bytes) : (ofBytes text).flatMap toBytes = text :=
  flatMap_toBytes_go 0 text

theorem eq_flatMap_of_ofBytes {text : Bytes} {runes : List Rune} (same : ofBytes text = runes) :
    text = runes.flatMap toBytes := by
  rw [← same, flatMap_toBytes_ofBytes]

/-! ### ASCII bytes cut a text -/

theorem continuation?_ascii {b : UInt8} (ascii : b < 0x80) : continuation? b = none := by
  have small : b.toNat < 128 := UInt8.lt_iff_toNat_lt.mp ascii
  unfold continuation?
  rw [if_neg (by omega)]

theorem scalarAt?_ascii {b : UInt8} (ascii : b < 0x80) (rest : Bytes) :
    ∃ c : Char, c.toNat = b.toNat ∧ scalarAt? b rest = some (c, 0) := by
  have small : b.toNat < 128 := UInt8.lt_iff_toNat_lt.mp ascii
  have valid : 0 ≤ b.toNat ∧ b.toNat.isValidChar := ⟨Nat.zero_le _, Or.inl (by omega)⟩
  refine ⟨Char.ofNatAux b.toNat valid.2, rfl, ?_⟩
  unfold scalarAt? scalar?
  dsimp only
  rw [if_pos small, dif_pos valid]
  rfl

/-- No sequence reaches over an ASCII byte. -/
theorem scalarAt?_append_ascii (lead : UInt8) (text : Bytes) {b : UInt8} (ascii : b < 0x80)
    (rest : Bytes) : scalarAt? lead (text ++ b :: rest) = scalarAt? lead text := by
  have none := continuation?_ascii ascii
  unfold scalarAt?
  dsimp only
  match text with
  | [] => cases rest with
    | nil => simp [none]
    | cons c rest => cases rest <;> simp [none]
  | [x] => cases rest <;> simp [none]
  | [x, y] => simp [none]
  | x :: y :: z :: text => rfl

theorem go_append_ascii (skip : Nat) (text : Bytes) {b : UInt8} (ascii : b < 0x80) (rest : Bytes)
    (fits : skip ≤ text.length) :
    ofBytes.go skip (text ++ b :: rest) = ofBytes.go skip text ++ ofBytes.go 0 (b :: rest) := by
  induction text generalizing skip with
  | nil =>
    obtain rfl : skip = 0 := Nat.le_zero.mp fits
    rfl
  | cons lead text ih =>
    cases skip with
    | succ skip => exact ih skip (Nat.le_of_succ_le_succ fits)
    | zero =>
      rw [List.cons_append, ofBytes.go, ofBytes.go, scalarAt?_append_ascii lead text ascii]
      split
      · rename_i c length read
        rw [ih length (scalarAt?_encode read).1, List.cons_append]
      · rw [ih 0 (Nat.zero_le _), List.cons_append]

theorem ofBytes_append_ascii (text : Bytes) {b : UInt8} (ascii : b < 0x80) (rest : Bytes) :
    ofBytes (text ++ b :: rest) = ofBytes text ++ ofBytes (b :: rest) :=
  go_append_ascii 0 text ascii rest (Nat.zero_le _)

theorem ofBytes_cons_ascii {b : UInt8} (ascii : b < 0x80) (rest : Bytes) :
    ∃ c : Char, c.toNat = b.toNat ∧ ofBytes (b :: rest) = .scalar c :: ofBytes rest := by
  obtain ⟨c, value, read⟩ := scalarAt?_ascii ascii rest
  refine ⟨c, value, ?_⟩
  rw [ofBytes, ofBytes.go, read]
  rfl

theorem ofBytes_append_of_ascii {text : Bytes} (ascii : ∀ b ∈ text, b < 0x80) (rest : Bytes) :
    ofBytes (text ++ rest) = ofBytes text ++ ofBytes rest := by
  induction text with
  | nil => rfl
  | cons b text ih =>
    have ⟨here, others⟩ := List.forall_mem_cons.mp ascii
    obtain ⟨c, same, read⟩ := ofBytes_cons_ascii here (text ++ rest)
    obtain ⟨c', same', read'⟩ := ofBytes_cons_ascii here text
    obtain rfl : c = c' := Char.toNat_inj.mp (same.trans same'.symm)
    rw [List.cons_append, read, read', ih others, List.cons_append]

theorem ofBytes_char {c : Char} (ascii : c.toUInt8 < 0x80) (same : c.toUInt8.toNat = c.toNat)
    (rest : Bytes) : ofBytes (c.toUInt8 :: rest) = .scalar c :: ofBytes rest := by
  obtain ⟨c', value, read⟩ := ofBytes_cons_ascii ascii rest
  rw [read, Char.toNat_inj.mp (value.trans same)]

/-- An ASCII byte as a rune. -/
def ofByte (b : UInt8) : Rune := .scalar (Char.ofUInt8 b)

theorem toBytes_ofByte {b : UInt8} (ascii : b < 0x80) : (ofByte b).toBytes = [b] := by
  have checked := Bytes.forall_byte (p := fun b => !decide (b < 0x80) || (ofByte b).toBytes == [b])
    (by decide +kernel) b
  simpa [ascii] using checked

theorem ofBytes_of_ascii {text : Bytes} (ascii : ∀ b ∈ text, b < 0x80) :
    ofBytes text = text.map ofByte := by
  induction text with
  | nil => rfl
  | cons b text ih =>
    obtain ⟨first, others⟩ := List.forall_mem_cons.mp ascii
    obtain ⟨c, same, read⟩ := ofBytes_cons_ascii first text
    have char : c = Char.ofUInt8 b := Char.toNat_inj.mp same
    rw [read, ih others, List.map_cons, ofByte, char]

theorem toNat_toUInt8 {c : Char} (small : c.toNat < 0x80) : c.toUInt8.toNat = c.toNat := by
  show c.val.toNat % 256 = c.val.toNat
  exact Nat.mod_eq_of_lt (Nat.lt_trans small (by decide))

theorem toUInt8_lt {c : Char} (small : c.toNat < 0x80) : c.toUInt8 < 0x80 := by
  rw [UInt8.lt_iff_toNat_lt, toNat_toUInt8 small]
  exact small

theorem ofByte_toUInt8 {c : Char} (small : c.toNat < 0x80) : ofByte c.toUInt8 = .scalar c := by
  have same : (Char.ofUInt8 c.toUInt8).toNat = c.toNat := toNat_toUInt8 small
  rw [ofByte, Char.toNat_inj.mp same]

/-- Beyond ASCII no byte of an encoding is ASCII. -/
theorem high_of_mem_encode {c : Char} (high : 0x80 ≤ c.toNat) :
    ∀ b ∈ String.utf8EncodeChar c, 0x80 ≤ b.toNat := by
  have byte {n : Nat} (least : 0x80 ≤ n) (most : n < 0x100) : 0x80 ≤ (UInt8.ofNat n).toNat := by
    rw [UInt8.toNat_ofNat', Nat.mod_eq_of_lt most]
    exact least
  have value : c.val.toNat = c.toNat := rfl
  unfold String.utf8EncodeChar
  dsimp only
  rw [value, if_neg (by omega)]
  split
  · simp only [List.forall_mem_cons]
    exact ⟨byte (by omega) (by omega), byte (by omega) (by omega), List.forall_mem_nil _⟩
  split
  · simp only [List.forall_mem_cons]
    exact ⟨byte (by omega) (by omega), byte (by omega) (by omega), byte (by omega) (by omega),
      List.forall_mem_nil _⟩
  · simp only [List.forall_mem_cons]
    exact ⟨byte (by omega) (by omega), byte (by omega) (by omega), byte (by omega) (by omega),
      byte (by omega) (by omega), List.forall_mem_nil _⟩

theorem mem_of_mem_ofBytes {r : Rune} {text : Bytes} (member : r ∈ ofBytes text) :
    ∀ b ∈ r.toBytes, b ∈ text := by
  intro b inside
  rw [← flatMap_toBytes_ofBytes text]
  exact List.mem_flatMap.mpr ⟨r, member, inside⟩

end Rune

namespace Bytes

/-! ### Blanks around a text -/

def IsBlank (b : UInt8) : Prop := b = ' '.toUInt8 ∨ b = '\t'.toUInt8

/-- An ASCII byte above the space. -/
def IsInk (b : UInt8) : Prop := ' '.toUInt8 < b ∧ b < 0x80

instance : DecidablePred IsBlank := fun b => inferInstanceAs (Decidable (b = _ ∨ b = _))

instance : DecidablePred IsInk := fun b => inferInstanceAs (Decidable (_ < b ∧ b < _))

/-- The text begins and ends with ink. -/
structure IsSolid (text : Bytes) : Prop where
  head : ∃ b rest, text = b :: rest ∧ IsInk b
  last : ∃ front b, text = front ++ [b] ∧ IsInk b

theorem isSolid_of_ink {text : Bytes} (nonempty : text ≠ []) (ink : ∀ b ∈ text, IsInk b) :
    IsSolid text where
  head := by
    obtain ⟨b, rest, rfl⟩ := List.exists_cons_of_ne_nil nonempty
    exact ⟨b, rest, rfl, ink b List.mem_cons_self⟩
  last := ⟨_, _, (List.dropLast_concat_getLast nonempty).symm, ink _ (List.getLast_mem nonempty)⟩

theorem IsSolid.join {text text' : Bytes} (solid : IsSolid text) (middle : Bytes)
    (solid' : IsSolid text') : IsSolid (text ++ middle ++ text') where
  head := by
    obtain ⟨b, rest, rfl, ink⟩ := solid.head
    exact ⟨b, rest ++ middle ++ text', rfl, ink⟩
  last := by
    obtain ⟨front, b, rfl, ink⟩ := solid'.last
    exact ⟨text ++ middle ++ front, b, (List.append_assoc _ _ _).symm, ink⟩

theorem IsSolid.head?_append {text : Bytes} (solid : IsSolid text) (rest : Bytes) :
    (text ++ rest).head? = text.head? := by
  obtain ⟨b, text, rfl, -⟩ := solid.head
  rfl

theorem IsBlank.ascii {b : UInt8} (blank : IsBlank b) : b < 0x80 := by
  rcases blank with rfl | rfl <;> decide

theorem IsBlank.isSpace {b : UInt8} (blank : IsBlank b) {c : Char} (same : c.toNat = b.toNat) :
    Rune.isSpace (.scalar c) = true := by
  unfold Rune.isSpace
  dsimp only
  rw [same]
  rcases blank with rfl | rfl <;> rfl

theorem IsInk.isSpace {b : UInt8} (ink : IsInk b) {c : Char} (same : c.toNat = b.toNat) :
    Rune.isSpace (.scalar c) = false := by
  have above : 32 < b.toNat := UInt8.lt_iff_toNat_lt.mp ink.1
  have below : b.toNat < 128 := UInt8.lt_iff_toNat_lt.mp ink.2
  unfold Rune.isSpace
  dsimp only
  rw [same]
  simp only [Bool.or_eq_false_iff, Bool.and_eq_false_iff, decide_eq_false_iff_not,
    beq_eq_false_iff_ne]
  omega

/-- The text has white space in it and nothing else. -/
def IsWhite (text : Bytes) : Prop := ∀ r ∈ Rune.ofBytes text, r.isSpace = true

instance : DecidablePred IsWhite := fun _ => inferInstanceAs (Decidable (∀ r ∈ _, _))

theorem isWhite_nil : IsWhite [] := fun _ member => nomatch member

theorem isWhite_of_blanks {blanks : Bytes} (h : ∀ b ∈ blanks, IsBlank b) : IsWhite blanks := by
  induction blanks with
  | nil => exact isWhite_nil
  | cons b blanks ih =>
    have ⟨blank, more⟩ := List.forall_mem_cons.mp h
    obtain ⟨c, same, read⟩ := Rune.ofBytes_cons_ascii blank.ascii blanks
    rw [IsWhite, read]
    exact List.forall_mem_cons.mpr ⟨blank.isSpace same, ih more⟩

theorem trim_of_isWhite {text : Bytes} (white : IsWhite text) : trim text = [] := by
  have nothing : (Rune.ofBytes text ++ []).dropWhile Rune.isSpace = [] :=
    List.dropWhile_append_of_pos white
  rw [List.append_nil] at nothing
  unfold trim
  dsimp only
  rw [nothing]
  rfl

theorem trim_white {before core after : Bytes} (white : IsWhite before) (solid : IsSolid core)
    (white' : IsWhite after) : trim (before ++ core ++ after) = core := by
  obtain ⟨first, rest, begins, ink⟩ := solid.head
  obtain ⟨front, last, ends, ink'⟩ := solid.last
  obtain ⟨c, same, read⟩ := Rune.ofBytes_cons_ascii ink.2 (rest ++ after)
  obtain ⟨c', same', read'⟩ := Rune.ofBytes_cons_ascii ink'.2 after
  obtain ⟨d, same'', read''⟩ := Rune.ofBytes_cons_ascii ink'.2 []
  obtain rfl : c' = d := Char.toNat_inj.mp (same'.trans same''.symm)
  have dropped : (Rune.ofBytes (before ++ core ++ after)).dropWhile Rune.isSpace =
      Rune.ofBytes (core ++ after) := by
    rw [List.append_assoc, begins, List.cons_append, Rune.ofBytes_append_ascii before ink.2,
      List.dropWhile_append_of_pos white, read,
      List.dropWhile_cons_of_neg (by rw [ink.isSpace same]; exact Bool.false_ne_true)]
  have cut : Rune.ofBytes (core ++ after) = Rune.ofBytes core ++ Rune.ofBytes after := by
    rw [ends, List.append_assoc, List.singleton_append, Rune.ofBytes_append_ascii front ink'.2,
      Rune.ofBytes_append_ascii front ink'.2, read', read'', List.append_assoc]
    rfl
  have kept : (Rune.ofBytes core).reverse.dropWhile Rune.isSpace = (Rune.ofBytes core).reverse := by
    rw [ends, Rune.ofBytes_append_ascii front ink'.2, read'', List.reverse_append]
    exact List.dropWhile_cons_of_neg (by rw [ink'.isSpace same']; exact Bool.false_ne_true)
  unfold trim
  dsimp only
  rw [dropped, cut, List.reverse_append, List.dropWhile_append_of_pos, kept, List.reverse_reverse,
    Rune.flatMap_toBytes_ofBytes]
  exact fun r member => white' r (List.mem_reverse.mp member)

theorem trim_solid {before core after : Bytes} (blank : ∀ b ∈ before, IsBlank b)
    (solid : IsSolid core) (blank' : ∀ b ∈ after, IsBlank b) :
    trim (before ++ core ++ after) = core :=
  trim_white (isWhite_of_blanks blank) solid (isWhite_of_blanks blank')

theorem not_isInk_of_isSpace {r : Rune} (space : r.isSpace = true) : ∀ b ∈ r.toBytes, ¬IsInk b := by
  intro b member ink
  cases r with
  | stray => cases space
  | scalar c =>
    by_cases low : c.toNat < 0x80
    · rw [← Rune.ofByte_toUInt8 low, Rune.toBytes_ofByte (Rune.toUInt8_lt low),
        List.mem_singleton] at member
      have same : c.toNat = b.toNat := by rw [member, Rune.toNat_toUInt8 low]
      rw [ink.isSpace same] at space
      cases space
    · have high := Rune.high_of_mem_encode (Nat.not_lt.mp low) b member
      have below : b.toNat < 0x80 := UInt8.lt_iff_toNat_lt.mp ink.2
      omega

theorem not_isInk_of_spaces {runes : List Rune} (spaces : ∀ r ∈ runes, r.isSpace = true) :
    ∀ b ∈ runes.flatMap Rune.toBytes, ¬IsInk b := by
  intro b member
  obtain ⟨r, inside, encoded⟩ := List.mem_flatMap.mp member
  exact not_isInk_of_isSpace (spaces r inside) b encoded

theorem IsWhite.not_isInk {text : Bytes} (white : IsWhite text) : ∀ b ∈ text, ¬IsInk b := by
  have inkless := not_isInk_of_spaces white
  rwa [Rune.flatMap_toBytes_ofBytes] at inkless

/-- What is cut off stands at the two ends and has no ink in it. -/
theorem exists_trim (text : Bytes) : ∃ before after, text = before ++ (trim text ++ after) ∧
    (∀ b ∈ before, ¬IsInk b) ∧ ∀ b ∈ after, ¬IsInk b := by
  have taken (runes : List Rune) : ∀ r ∈ runes.takeWhile Rune.isSpace, r.isSpace = true :=
    List.all_eq_true.mp List.all_takeWhile
  refine ⟨((Rune.ofBytes text).takeWhile Rune.isSpace).flatMap Rune.toBytes,
    (((Rune.ofBytes text).dropWhile Rune.isSpace).reverse.takeWhile Rune.isSpace).reverse.flatMap
      Rune.toBytes, ?_, not_isInk_of_spaces (taken _), not_isInk_of_spaces fun r member => ?_⟩
  · rw [trim, ← List.flatMap_append, ← List.flatMap_append, ← List.reverse_append,
      List.takeWhile_append_dropWhile, List.reverse_reverse, List.takeWhile_append_dropWhile,
      Rune.flatMap_toBytes_ofBytes]
  · exact taken _ r (List.mem_reverse.mp member)

/-- Ink at the beginning stays, and what is cut off is at the end. -/
theorem trim_cons_ink {b : UInt8} (ink : IsInk b) (text : Bytes) :
    ∃ kept dropped, trim (b :: text) = b :: kept ∧ text = kept ++ dropped := by
  obtain ⟨before, after, whole, inkless, inkless'⟩ := exists_trim (b :: text)
  cases before with
  | cons c before =>
    obtain ⟨rfl, -⟩ := List.cons.inj whole
    exact absurd ink (inkless b List.mem_cons_self)
  | nil =>
    generalize trim (b :: text) = core at whole
    cases core with
    | nil =>
      have only : b :: text = after := whole
      exact absurd ink (inkless' b (only ▸ List.mem_cons_self))
    | cons c kept =>
      obtain ⟨rfl, rest⟩ := List.cons.inj whole
      exact ⟨kept, after, rfl, rest⟩

end Bytes

end Asm68k
