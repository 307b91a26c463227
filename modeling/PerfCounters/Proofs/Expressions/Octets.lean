import PerfCounters.Proofs.Expressions.Lexing

/-! Texts are cut at octets. Here a text is walked over by the numbers of its octets, and sliced by the numbers at which
    the walk stops; a slice is refused if it begins or ends inside a character. No octet of a longer character is
    one that the walk goes on for, so it stops between characters: no slice is refused, and the tokens are the ones that
    are cut from the characters. -/

namespace PerfCounters.Token

/-- The octets of a text. -/
def octets (text : String) : List UInt8 := text.toByteArray.data.toList

/-- The character with the number of the octet, which is what an octet is compared with. -/
def letter (b : UInt8) : Char := Char.ofNat b.toNat

/-- The part of the text between two octets, if both stand between characters. -/
def slice? (text : String) (start stop : Nat) : Option String :=
  if h : (String.Pos.Raw.mk start).IsValid text ∧ (String.Pos.Raw.mk stop).IsValid text ∧ start ≤ stop then
    some (text.extract (text.pos ⟨start⟩ h.1) (text.pos ⟨stop⟩ h.2.1))
  else none

/-- For how many octets the class goes on. -/
def spanLength (p : Char → Bool) (bs : List UInt8) : Nat := (bs.takeWhile fun b => p (letter b)).length

def isMark (c : Char) : Bool := c = 'e' || c = 'E'

def isSigned (c : Char) : Bool := c = '+' || c = '-'

def signLength : List UInt8 → Nat
  | [] => 0
  | b :: _ => if isSigned (letter b) then 1 else 0

/-- An exponent, if a digit follows its mark and sign. -/
def exponentLength : List UInt8 → Nat
  | [] => 0
  | mark :: bs =>
    if isMark (letter mark) then
      let digits := spanLength Decimal.isDigit (bs.drop (signLength bs))
      if digits = 0 then 0 else 1 + signLength bs + digits
    else 0

def numberLength (bs : List UInt8) : Nat :=
  let digits := spanLength isNumeric bs
  digits + exponentLength (bs.drop digits)

theorem spanLength_pos {p : Char → Bool} {b : UInt8} (h : p (letter b)) (bs : List UInt8) :
    0 < spanLength p (b :: bs) := by
  rw [spanLength, List.takeWhile_cons_of_pos (p := fun b => p (letter b)) h]
  exact Nat.succ_pos _

/-- The tokens from octet `i` on; `none` says that a slice is refused. -/
def walk (text : String) (i : Nat) : Option (Except SyntaxError (List Token)) :=
  match _h : (octets text).drop i with
  | [] => some (.ok [])
  | b :: bs =>
    if isSpace (letter b) then walk text (i + 1)
    else if isNumeric (letter b) then do
      let part ← slice? text i (i + numberLength (b :: bs))
      let more ← walk text (i + numberLength (b :: bs))
      return more.map (⟨.number part, i⟩ :: ·)
    else if startsName (letter b) then do
      let part ← slice? text i (i + spanLength continuesName (b :: bs))
      let more ← walk text (i + spanLength continuesName (b :: bs))
      return more.map (⟨.name part, i⟩ :: ·)
    else match Sign.ofChar? (letter b) with
      | some s => do
        let more ← walk text (i + 1)
        return more.map (⟨.sign s, i⟩ :: ·)
      | none => do
        let ahead ← slice? text i text.utf8ByteSize
        return .error (.unexpectedChar i (ahead.toList.headD '\ufffd'))
termination_by (octets text).length - i
decreasing_by
  all_goals
    have hlength := congrArg List.length _h
    rw [List.length_drop, List.length_cons] at hlength
  · omega
  · have := spanLength_pos (p := isNumeric) ‹_› bs
    rw [numberLength]
    omega
  · have hcontinues : continuesName (letter b) = true := by rw [continuesName, ‹startsName (letter b) = true›, Bool.true_or]
    have := spanLength_pos hcontinues bs
    omega
  · omega

/-! ### Octets of characters -/

variable {c : Char} {cs part : List Char} {p : Char → Bool}

def encode (cs : List Char) : List UInt8 := cs.flatMap String.utf8EncodeChar

theorem octets_ofList (cs : List Char) : octets (String.ofList cs) = encode cs := by
  rw [octets, String.toByteArray_ofList, List.utf8Encode, List.data_toByteArray, encode]

theorem octets_append (s t : String) : octets (s ++ t) = octets s ++ octets t := by
  rw [octets, String.toByteArray_append, ByteArray.data_append, Array.toList_append, octets, octets]

theorem length_octets (s : String) : (octets s).length = s.utf8ByteSize := by
  rw [← String.size_toByteArray, octets, Array.length_toList, ByteArray.size_data]

theorem drop_octets (s t : String) : (octets (s ++ t)).drop s.utf8ByteSize = octets t := by
  rw [octets_append, ← length_octets, List.drop_left]

theorem toNat_letter (b : UInt8) : (letter b).toNat = b.toNat := by
  have := b.toNat_lt
  rw [letter, Char.ofNat, dif_pos (.inl (by omega))]
  rfl

theorem letter_toUInt8 (h : c.toNat < 128) : letter c.toUInt8 = c := by
  have hnat : c.toUInt8.toNat = c.toNat := by
    rw [Char.toUInt8, UInt32.toNat_toUInt8]
    exact Nat.mod_eq_of_lt (Nat.lt_trans h (by decide))
  rw [letter, hnat, Char.ofNat_toNat]

theorem utf8Size_ascii (h : c.toNat < 128) : c.utf8Size = 1 := by
  rw [Char.utf8Size_eq_one_iff, UInt32.le_iff_toNat_le]
  exact Nat.le_of_lt_succ h

/-- The first octet of a longer character says so. -/
theorem head_wide (h : 128 ≤ c.toNat) : ∃ b bs, String.utf8EncodeChar c = b :: bs ∧ 128 ≤ b.toNat := by
  rcases c.utf8Size_eq with hsize | hsize | hsize | hsize
  · rw [Char.utf8Size_eq_one_iff, UInt32.le_iff_toNat_le] at hsize
    exact absurd h (Nat.not_le.mpr (Nat.lt_succ_of_le hsize))
  · refine ⟨_, _, String.utf8EncodeChar_eq_cons_cons hsize, ?_⟩
    rw [UInt8.toNat_or]
    exact Nat.le_trans (by decide) Nat.right_le_or
  · refine ⟨_, _, String.utf8EncodeChar_eq_cons_cons_cons hsize, ?_⟩
    rw [UInt8.toNat_or]
    exact Nat.le_trans (by decide) Nat.right_le_or
  · refine ⟨_, _, String.utf8EncodeChar_eq_cons_cons_cons_cons hsize, ?_⟩
    rw [UInt8.toNat_or]
    exact Nat.le_trans (by decide) Nat.right_le_or

/-- The class has no longer characters in it. -/
def Ascii (p : Char → Bool) : Prop := ∀ c, p c = true → c.toNat < 128

/-- The characters are the same, or are both longer. -/
def Alike (c d : Char) : Prop := c = d ∨ 128 ≤ c.toNat ∧ 128 ≤ d.toNat

theorem Ascii.alike (hp : Ascii p) {d : Char} (h : Alike c d) : p c = p d := by
  rcases h with rfl | ⟨hc, hd⟩
  · rfl
  · rw [Bool.eq_false_iff.mpr fun h => absurd (hp c h) (Nat.not_lt.mpr hc),
      Bool.eq_false_iff.mpr fun h => absurd (hp d h) (Nat.not_lt.mpr hd)]

theorem encode_cons (c : Char) (cs : List Char) :
    ∃ b bs, encode (c :: cs) = b :: bs ∧ Alike (letter b) c ∧ (c.toNat < 128 → bs = encode cs) := by
  rw [encode, List.flatMap_cons]
  by_cases hc : c.toNat < 128
  · rw [String.utf8EncodeChar_eq_singleton (utf8Size_ascii hc)]
    exact ⟨c.toUInt8, encode cs, rfl, .inl (letter_toUInt8 hc), fun _ => rfl⟩
  · obtain ⟨b, bs, heq, hb⟩ := head_wide (Nat.le_of_not_lt hc)
    rw [heq]
    rw [← toNat_letter] at hb
    exact ⟨b, bs ++ encode cs, rfl, .inr ⟨hb, Nat.le_of_not_lt hc⟩, fun h => absurd h hc⟩

theorem length_encode_ascii (h : ∀ c ∈ part, c.toNat < 128) : (encode part).length = part.length := by
  induction part with
  | nil => rfl
  | cons c part ih =>
    obtain ⟨hc, hpart⟩ := List.forall_mem_cons.mp h
    obtain ⟨b, bs, heq, -, hascii⟩ := encode_cons c part
    rw [heq, hascii hc, List.length_cons, ih hpart, List.length_cons]

/-- The characters are in front of the others, and none of them is longer. -/
structure Heads (part cs : List Char) : Prop where
  isPrefix : part <+: cs
  ascii : ∀ c ∈ part, c.toNat < 128

theorem heads_nil (cs : List Char) : Heads [] cs := ⟨List.nil_prefix, fun _ hc => absurd hc List.not_mem_nil⟩

theorem Heads.split (h : Heads part cs) : part ++ cs.drop part.length = cs :=
  List.prefix_iff_eq_append.mp h.isPrefix

theorem Heads.append {more : List Char} (h : Heads part cs) (h' : Heads more (cs.drop part.length)) :
    Heads (part ++ more) cs := by
  refine ⟨?_, List.forall_mem_append.mpr ⟨h.ascii, h'.ascii⟩⟩
  rw [← h.split]
  exact (List.prefix_append_right_inj part).mpr h'.isPrefix

theorem Heads.drop_encode (h : Heads part cs) : (encode cs).drop part.length = encode (cs.drop part.length) := by
  have happend : encode cs = encode part ++ encode (cs.drop part.length) := by
    rw [encode, encode, encode, ← List.flatMap_append, h.split]
  rw [happend, ← length_encode_ascii h.ascii, List.drop_left]

/-! ### Lengths -/

theorem heads_takeWhile (hp : Ascii p) (cs : List Char) : Heads (cs.takeWhile p) cs :=
  ⟨List.takeWhile_prefix p, fun c hc => hp c (List.all_eq_true.mp List.all_takeWhile c hc)⟩

theorem spanLength_encode (hp : Ascii p) (cs : List Char) : spanLength p (encode cs) = (cs.takeWhile p).length := by
  induction cs with
  | nil => rfl
  | cons c cs ih =>
    obtain ⟨b, bs, heq, halike, hascii⟩ := encode_cons c cs
    rw [heq, spanLength, List.takeWhile_cons, List.takeWhile_cons, hp.alike halike]
    by_cases hc : p c = true
    · rw [if_pos hc, if_pos hc, List.length_cons, List.length_cons, ← ih, hascii (hp c hc), spanLength]
    · rw [if_neg hc, if_neg hc]
      rfl

theorem ascii_isDigit : Ascii Decimal.isDigit := fun c hc => by
  simp [Decimal.isDigit, Char.le_def, UInt32.le_iff_toNat_le] at hc
  exact Nat.lt_of_le_of_lt hc.2 (by decide)

theorem ascii_isNumeric : Ascii isNumeric := fun c hc => by
  rcases Bool.or_eq_true_iff.mp hc with hc | hc
  · exact ascii_isDigit c hc
  · rw [of_decide_eq_true hc]
    decide

theorem ascii_startsName : Ascii startsName := fun c hc => by
  simp [startsName, Char.le_def, UInt32.le_iff_toNat_le] at hc
  rcases hc with (hc | hc) | rfl
  · exact Nat.lt_of_le_of_lt hc.2 (by decide)
  · exact Nat.lt_of_le_of_lt hc.2 (by decide)
  · decide

theorem ascii_continuesName : Ascii continuesName := fun c hc =>
  (Bool.or_eq_true_iff.mp hc).elim (ascii_startsName c) (ascii_isDigit c)

theorem ascii_isSpace : Ascii isSpace := fun c hc => by
  simp only [isSpace, Bool.or_eq_true, decide_eq_true_iff] at hc
  rcases hc with ((rfl | rfl) | rfl) | rfl <;> decide

theorem ascii_isMark : Ascii isMark := fun c hc => by
  simp only [isMark, Bool.or_eq_true, decide_eq_true_iff] at hc
  rcases hc with rfl | rfl <;> decide

theorem ascii_isSigned : Ascii isSigned := fun c hc => by
  simp only [isSigned, Bool.or_eq_true, decide_eq_true_iff] at hc
  rcases hc with rfl | rfl <;> decide

theorem char_of_ofChar? {s : Sign} (h : Sign.ofChar? c = some s) : s.char = c :=
  beq_iff_eq.mp (List.find?_some (p := fun s : Sign => s.char == c) h)

theorem ascii_sign {s : Sign} (h : Sign.ofChar? c = some s) : c.toNat < 128 := by
  rw [← char_of_ofChar? h]
  cases s <;> decide

theorem Alike.sign {d : Char} (h : Alike c d) : Sign.ofChar? c = Sign.ofChar? d := by
  have hnone {c : Char} (hc : 128 ≤ c.toNat) : Sign.ofChar? c = none :=
    Option.eq_none_iff_forall_ne_some.mpr fun s hs => absurd (ascii_sign hs) (Nat.not_lt.mpr hc)
  rcases h with rfl | ⟨hc, hd⟩
  · rfl
  · rw [hnone hc, hnone hd]

/-! ### Lengths -/

def signText : List Char → List Char
  | [] => []
  | c :: _ => if isSigned c then [c] else []

theorem signText_eq (cs : List Char) : (match cs with
    | '+' :: _ => ['+']
    | '-' :: _ => ['-']
    | _ => []) = signText cs := by
  split
  · rfl
  · rfl
  · rename_i hplus hminus
    cases cs with
    | nil => rfl
    | cons c cs =>
      have hsigned : ¬isSigned c = true := fun h => by
        simp only [isSigned, Bool.or_eq_true, decide_eq_true_iff] at h
        rcases h with rfl | rfl
        · exact hplus _ rfl
        · exact hminus _ rfl
      rw [signText, if_neg hsigned]

theorem exponentText_cons (mark : Char) (cs : List Char) : exponentText (mark :: cs) =
    if isMark mark then
      let digits := (cs.drop (signText cs).length).takeWhile Decimal.isDigit
      if digits = [] then [] else mark :: signText cs ++ digits
    else [] := by
  rw [← signText_eq]
  rfl

theorem signLength_encode (cs : List Char) : signLength (encode cs) = (signText cs).length := by
  cases cs with
  | nil => rfl
  | cons c cs =>
    obtain ⟨b, bs, heq, halike, -⟩ := encode_cons c cs
    rw [heq, signLength, ascii_isSigned.alike halike, signText]
    split <;> rfl

theorem heads_signText (cs : List Char) : Heads (signText cs) cs := by
  cases cs with
  | nil => exact heads_nil []
  | cons c cs =>
    rw [signText]
    split
    · rename_i hc
      exact ⟨List.prefix_append [c] cs, List.forall_mem_singleton.mpr (ascii_isSigned c hc)⟩
    · exact heads_nil _

theorem heads_exponentText (cs : List Char) : Heads (exponentText cs) cs := by
  cases cs with
  | nil => exact heads_nil []
  | cons mark cs =>
    rw [exponentText_cons]
    split
    · rename_i hmark
      simp only
      split
      · exact heads_nil _
      · have hrest := (heads_signText cs).append (heads_takeWhile ascii_isDigit _)
        rw [List.cons_append]
        exact ⟨List.cons_prefix_cons.mpr ⟨rfl, hrest.isPrefix⟩,
          List.forall_mem_cons.mpr ⟨ascii_isMark mark hmark, hrest.ascii⟩⟩
    · exact heads_nil _

theorem heads_numberText (cs : List Char) : Heads (numberText cs) cs :=
  (heads_takeWhile ascii_isNumeric cs).append (heads_exponentText _)

theorem exponentLength_encode (cs : List Char) : exponentLength (encode cs) = (exponentText cs).length := by
  cases cs with
  | nil => rfl
  | cons mark cs =>
    obtain ⟨b, bs, heq, halike, hascii⟩ := encode_cons mark cs
    rw [heq, exponentLength, exponentText_cons, ascii_isMark.alike halike]
    split
    · rename_i hmark
      rw [hascii (ascii_isMark mark hmark), signLength_encode, (heads_signText cs).drop_encode,
        spanLength_encode ascii_isDigit]
      simp only [List.length_eq_zero_iff]
      split
      · rfl
      · rw [List.cons_append, List.length_cons, List.length_append]
        omega
    · rfl

theorem numberLength_encode (cs : List Char) : numberLength (encode cs) = (numberText cs).length := by
  rw [numberLength, spanLength_encode ascii_isNumeric, (heads_takeWhile ascii_isNumeric cs).drop_encode,
    exponentLength_encode, numberText, List.length_append]

/-! ### The walk -/

theorem slice?_append (before part after : String) :
    slice? (before ++ part ++ after) before.utf8ByteSize (before.utf8ByteSize + part.utf8ByteSize) = some part := by
  have hfirst : (String.Pos.Raw.mk before.utf8ByteSize).IsValid (before ++ part ++ after) :=
    String.Pos.Raw.isValid_iff_exists_append.mpr ⟨before, part ++ after, String.append_assoc, rfl⟩
  have hlast : (String.Pos.Raw.mk (before.utf8ByteSize + part.utf8ByteSize)).IsValid (before ++ part ++ after) := by
    rw [← String.utf8ByteSize_append]
    exact String.Pos.Raw.isValid_iff_exists_append.mpr ⟨before ++ part, after, rfl, rfl⟩
  have hbytes : (before.toByteArray ++ (part.toByteArray ++ after.toByteArray)).extract before.toByteArray.size
      (before.toByteArray.size + part.toByteArray.size) = part.toByteArray := by
    rw [← Nat.add_zero before.toByteArray.size, Nat.add_assoc, ByteArray.extract_append_size_add, Nat.zero_add,
      ByteArray.extract_append_eq_left rfl]
  rw [slice?, dif_pos ⟨hfirst, hlast, Nat.le_add_right _ _⟩, Option.some_inj, ← String.toByteArray_inj,
    String.toByteArray_extract, String.offset_pos, String.offset_pos, String.append_assoc, String.toByteArray_append,
    String.toByteArray_append]
  exact hbytes

theorem utf8ByteSize_ascii (h : ∀ c ∈ part, c.toNat < 128) : (String.ofList part).utf8ByteSize = part.length := by
  rw [← length_octets, octets_ofList, length_encode_ascii h]

/-- A word begins at `c`. -/
structure Word (part : List Char) (c : Char) (cs : List Char) : Prop extends Heads part (c :: cs) where
  full : 0 < part.length

theorem word_single (hc : c.toNat < 128) (cs : List Char) : Word [c] c cs :=
  ⟨⟨List.prefix_append [c] cs, List.forall_mem_singleton.mpr hc⟩, Nat.one_pos⟩

theorem word_number (hc : isNumeric c = true) (cs : List Char) : Word (numberText (c :: cs)) c cs := by
  refine ⟨heads_numberText _, ?_⟩
  rw [numberText, List.takeWhile_cons_of_pos hc]
  exact Nat.succ_pos _

theorem word_name (hc : startsName c = true) (cs : List Char) : Word (nameText (c :: cs)) c cs := by
  have hcontinues : continuesName c = true := by rw [continuesName, hc, Bool.true_or]
  refine ⟨heads_takeWhile ascii_continuesName _, ?_⟩
  rw [nameText, List.takeWhile_cons_of_pos hcontinues]
  exact Nat.succ_pos _

theorem Word.split (h : Word part c cs) : part ++ cs.drop (part.length - 1) = c :: cs := by
  obtain ⟨n, hn⟩ := Nat.exists_eq_add_one.mpr h.full
  have hsplit := h.toHeads.split
  rwa [hn, List.drop_succ_cons, ← Nat.add_sub_cancel (n := n) (m := 1), ← hn] at hsplit

theorem Word.whole (h : Word part c cs) (before : String) : before ++ String.ofList (c :: cs) =
    before ++ String.ofList part ++ String.ofList (cs.drop (part.length - 1)) := by
  rw [String.append_assoc, ← String.ofList_append, h.split]

theorem Word.size (h : Word part c cs) (before : String) :
    (before ++ String.ofList part).utf8ByteSize = before.utf8ByteSize + 1 + (part.length - 1) := by
  have := h.full
  rw [String.utf8ByteSize_append, utf8ByteSize_ascii h.ascii]
  omega

theorem Word.slice? (h : Word part c cs) (before : String) :
    slice? (before ++ String.ofList (c :: cs)) before.utf8ByteSize (before.utf8ByteSize + part.length) =
      some (String.ofList part) := by
  rw [h.whole, ← utf8ByteSize_ascii h.ascii]
  exact slice?_append before _ _

theorem slice?_tail (before : String) (cs : List Char) :
    slice? (before ++ String.ofList cs) before.utf8ByteSize (before ++ String.ofList cs).utf8ByteSize =
      some (String.ofList cs) := by
  have hslice := slice?_append before (String.ofList cs) ""
  rwa [String.append_empty, ← String.utf8ByteSize_append] at hslice

/-- What the walk does from the end of `before` on, is done to the characters that are left. -/
theorem walk_append (before : String) (cs : List Char) :
    walk (before ++ String.ofList cs) before.utf8ByteSize = some (lex before.utf8ByteSize cs) := by
  have hdrop := drop_octets before (String.ofList cs)
  rw [octets_ofList] at hdrop
  rw [walk]
  split
  · rename_i heq
    rw [hdrop] at heq
    cases cs with
    | nil => rw [lex]
    | cons c cs =>
      obtain ⟨b, bs, hhead, -⟩ := encode_cons c cs
      cases hhead.symm.trans heq
  · rename_i b bs heq
    rw [hdrop] at heq
    cases cs with
    | nil => cases heq
    | cons c cs =>
      obtain ⟨b', bs', hhead, halike, -⟩ := encode_cons c cs
      cases hhead.symm.trans heq
      have hmore (part : List Char) (h : Word part c cs) :
          walk (before ++ String.ofList (c :: cs)) (before.utf8ByteSize + part.length) =
            some (lex (before.utf8ByteSize + 1 + (part.length - 1)) (cs.drop (part.length - 1))) := by
        have hstop : before.utf8ByteSize + part.length = before.utf8ByteSize + 1 + (part.length - 1) := by
          have := h.full
          omega
        have ih := walk_append (before ++ String.ofList part) (cs.drop (part.length - 1))
        rw [hstop]
        rwa [← h.whole, h.size] at ih
      rw [lex, ascii_isSpace.alike halike, ascii_isNumeric.alike halike, ascii_startsName.alike halike, halike.sign, ← heq,
        numberLength_encode, spanLength_encode ascii_continuesName, ← nameText]
      split
      · rename_i hspace
        exact hmore [c] (word_single (ascii_isSpace c hspace) cs)
      split
      · rename_i hnumeric
        have hword := word_number hnumeric cs
        rw [hword.slice?, hmore _ hword]
        rfl
      split
      · rename_i hstarts
        have hword := word_name hstarts cs
        rw [hword.slice?, hmore _ hword]
        rfl
      rcases hsign : Sign.ofChar? c with _ | s
      · dsimp only
        rw [slice?_tail, Option.bind_eq_bind, Option.bind_some, String.toList_ofList]
        rfl
      · have hword := hmore [c] (word_single (ascii_sign hsign) cs)
        dsimp only [List.length_singleton] at hword ⊢
        rw [hword]
        rfl
termination_by cs.length
decreasing_by
  rw [List.length_drop]
  exact Nat.lt_succ_of_le (Nat.sub_le _ _)

/-- No slice is refused, and the tokens are those of the characters. -/
theorem walk_eq (text : String) : walk text 0 = some (ofText text) := by
  have hwalk := walk_append "" text.toList
  rwa [String.empty_append, String.ofList_toList] at hwalk

end PerfCounters.Token
