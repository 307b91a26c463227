import PerfCounters.Expr.Token

/-! How texts are cut into lexemes. A name or a number ends where nothing ahead could go on with it, and so it
    does in front of every sign and every space; what a text is cut into can therefore be told from its parts.
    And what comes out of a text as a name can be written as one. -/

namespace PerfCounters

/-- The lexeme is a sign or a name. -/
def Lexeme.isWord : Lexeme → Bool
  | .number _ => false
  | .name text => match text.toList with
    | [] => false
    | c :: cs => Token.startsName c && cs.all Token.continuesName
  | .sign _ => true

namespace Token

variable {c : Char} {cs ds rest : List Char} {offset : Nat} {us vs : List Lexeme} {u : Lexeme} {text : String}
  {ts : List Token}

/-! ### Classes of characters -/

/-- No space belongs to a class that has none of the four spaces in it. -/
theorem not_isSpace {p : Char → Bool} (h : p c) (hp : [' ', '\t', '\n', '\r'].all (!p ·)) : isSpace c = false := by
  cases hspace : isSpace c with
  | false => rfl
  | true =>
    simp only [isSpace, Bool.or_eq_true, decide_eq_true_iff] at hspace
    rcases hspace with ((rfl | rfl) | rfl) | rfl <;> simp [h] at hp

theorem not_isNumeric_of_startsName (h : startsName c) : isNumeric c = false := by
  have h' : c ≠ '.' := by rintro rfl; exact absurd h (by decide)
  simp [startsName, isNumeric, Decimal.isDigit, Char.le_def, UInt32.le_iff_toNat_le, h'] at h ⊢
  rcases h with (h | h) | rfl
  · omega
  · omega
  · decide

/-- Nothing ahead goes on with a name or a number. -/
def Apart (rest : List Char) : Prop := ∀ c ∈ rest.head?, continuesName c = false ∧ isNumeric c = false

theorem apart_nil : Apart [] := fun c hc => by cases hc

theorem apart_space (rest : List Char) : Apart (' ' :: rest) := fun c hc => by
  cases hc
  decide

theorem apart_sign (s : Sign) (rest : List Char) : Apart (s.char :: rest) := fun c hc => by
  cases hc
  cases s <;> decide

/-! ### Single lexemes -/

theorem nameText_append (hcs : cs.all continuesName) (hrest : Apart rest) : nameText (cs ++ rest) = cs := by
  rw [nameText, List.takeWhile_append_of_pos (by simpa using hcs)]
  cases rest with
  | nil => exact List.append_nil cs
  | cons c rest => simp [(hrest c rfl).1]

theorem exponentText_of_apart (hrest : Apart rest) : exponentText rest = [] := by
  cases rest with
  | nil => rfl
  | cons c rest =>
    have hmark : ¬(c = 'e' ∨ c = 'E') := by
      rintro (rfl | rfl) <;> exact absurd (hrest _ rfl).1 (by decide)
    simp [exponentText, hmark]

theorem numberText_append (hcs : cs.all isNumeric) (hrest : Apart rest) : numberText (cs ++ rest) = cs := by
  have hdigits : (cs ++ rest).takeWhile isNumeric = cs := by
    rw [List.takeWhile_append_of_pos (by simpa using hcs)]
    cases rest with
    | nil => exact List.append_nil cs
    | cons c rest => simp [(hrest c rfl).2]
  rw [numberText, hdigits, List.drop_left, exponentText_of_apart hrest, List.append_nil]

theorem lex_space : lex offset (' ' :: rest) = lex (offset + 1) rest := by
  rw [lex]
  simp [isSpace]

theorem lex_sign (s : Sign) : lex offset (s.char :: rest) = (lex (offset + 1) rest).map (⟨.sign s, offset⟩ :: ·) := by
  have hs : isSpace s.char = false ∧ isNumeric s.char = false ∧ startsName s.char = false ∧
      Sign.ofChar? s.char = some s := by
    cases s <;> decide
  rw [lex]
  simp [hs]

theorem lex_name (hc : startsName c) (hcs : cs.all continuesName) (hrest : Apart rest) : lex offset (c :: cs ++ rest) =
    (lex (offset + 1 + cs.length) rest).map (⟨.name (String.ofList (c :: cs)), offset⟩ :: ·) := by
  have hall : (c :: cs).all continuesName := by rw [List.all_cons, hcs, continuesName, hc]; rfl
  have htext := nameText_append hall hrest
  rw [List.cons_append] at htext ⊢
  rw [lex]
  simp [not_isSpace hc (by decide), not_isNumeric_of_startsName hc, hc, htext]

theorem lex_number (hcs : (c :: cs).all isNumeric) (hrest : Apart rest) : lex offset (c :: cs ++ rest) =
    (lex (offset + 1 + cs.length) rest).map (⟨.number (String.ofList (c :: cs)), offset⟩ :: ·) := by
  have hc : isNumeric c = true := by simp_all
  have htext := numberText_append hcs hrest
  rw [List.cons_append] at htext ⊢
  rw [lex]
  simp [not_isSpace hc (by decide), hc, htext]

/-! ### Texts made of parts -/

/-- In front of what stands apart, `cs` is cut into these lexemes. -/
def Lexes (cs : List Char) (us : List Lexeme) : Prop := ∀ offset rest, Apart rest →
  ∃ offset' ts, ts.map Token.lexeme = us ∧ lex offset (cs ++ rest) = (lex offset' rest).map (ts ++ ·)

theorem Lexes.nil : Lexes [] [] := fun offset rest _ => ⟨offset, [], rfl, by
  rw [List.nil_append]
  cases lex offset rest <;> rfl⟩

theorem Lexes.space (h : Lexes cs us) : Lexes (' ' :: cs) us := fun offset rest hrest => by
  obtain ⟨offset', ts, hts, hlex⟩ := h (offset + 1) rest hrest
  exact ⟨offset', ts, hts, lex_space.trans hlex⟩

theorem Lexes.sign (s : Sign) (h : Lexes cs us) : Lexes (s.char :: cs) (.sign s :: us) := fun offset rest hrest => by
  obtain ⟨offset', ts, hts, hlex⟩ := h (offset + 1) rest hrest
  refine ⟨offset', ⟨.sign s, offset⟩ :: ts, by rw [List.map_cons, hts], ?_⟩
  rw [List.cons_append, lex_sign, hlex]
  cases lex offset' rest <;> rfl

theorem Lexes.append (h : Lexes cs us) (h' : Lexes ds vs) (hds : ∀ rest, Apart (ds ++ rest)) :
    Lexes (cs ++ ds) (us ++ vs) := fun offset rest hrest => by
  obtain ⟨offset', ts, rfl, hlex⟩ := h offset (ds ++ rest) (hds rest)
  obtain ⟨last, ts', rfl, hlex'⟩ := h' offset' rest hrest
  refine ⟨last, ts ++ ts', List.map_append, ?_⟩
  rw [List.append_assoc, hlex, hlex']
  cases lex last rest with
  | error e => rfl
  | ok more => simp [Except.map]

theorem Lexes.then_space (h : Lexes cs us) (h' : Lexes ds vs) : Lexes (cs ++ ' ' :: ds) (us ++ vs) :=
  h.append h'.space fun _ => apart_space _

theorem Lexes.then_sign (h : Lexes cs us) (s : Sign) (h' : Lexes ds vs) :
    Lexes (cs ++ s.char :: ds) (us ++ .sign s :: vs) :=
  h.append (h'.sign s) fun _ => apart_sign s _

theorem lexes_name (h : (Lexeme.name text).isWord) : Lexes text.toList [.name text] := fun offset rest hrest => by
  simp only [Lexeme.isWord] at h
  split at h
  · cases h
  · rename_i c cs hchars
    obtain ⟨hc, hcs⟩ := Bool.and_eq_true_iff.mp h
    refine ⟨offset + 1 + cs.length, [⟨.name text, offset⟩], rfl, ?_⟩
    rw [hchars, lex_name hc hcs hrest, ← hchars, String.ofList_toList]
    rfl

theorem lexes_number (h : text.toList ≠ []) (hall : text.toList.all isNumeric) : Lexes text.toList [.number text] :=
  fun offset rest hrest => by
    obtain ⟨c, cs, hchars⟩ := List.exists_cons_of_ne_nil h
    rw [hchars] at hall
    refine ⟨offset + 1 + cs.length, [⟨.number text, offset⟩], rfl, ?_⟩
    rw [hchars, lex_number hall hrest, ← hchars, String.ofList_toList]
    rfl

theorem Lexes.ofText (h : Lexes text.toList us) : ∃ ts, ofText text = .ok ts ∧ ts.map Token.lexeme = us := by
  obtain ⟨offset', ts, hts, hlex⟩ := h 0 [] apart_nil
  rw [List.append_nil, lex] at hlex
  exact ⟨ts, by rw [Token.ofText, hlex]; simp [Except.map], hts⟩

/-! ### From texts to lexemes -/

theorem isWord_of_startsName (hc : startsName c) (cs : List Char) :
    (Lexeme.name (String.ofList (nameText (c :: cs)))).isWord := by
  have hcontinues : continuesName c = true := by rw [continuesName, hc, Bool.true_or]
  rw [Lexeme.isWord, nameText, List.takeWhile_cons_of_pos hcontinues, String.toList_ofList]
  simp only [hc, Bool.true_and]
  exact List.all_takeWhile

theorem of_map_cons {x : Except SyntaxError (List Token)} {t : Token} (h : x.map (t :: ·) = .ok ts) :
    ∃ more, x = .ok more ∧ ts = t :: more := by
  cases x with
  | error e => cases h
  | ok more =>
    cases h
    exact ⟨more, rfl, rfl⟩

/-- What comes out as a name begins and goes on as names do. -/
theorem isWord_of_lex (h : lex offset cs = .ok ts) (hname : .name text ∈ ts.map Token.lexeme) :
    (Lexeme.name text).isWord := by
  fun_induction lex offset cs generalizing ts with
  | case1 =>
    cases h
    cases hname
  | case2 offset c rest hspace ih => exact ih h hname
  | case3 offset c rest hspace hnumeric taken =>
    rename_i ih
    obtain ⟨more, hmore, rfl⟩ := of_map_cons h
    rcases List.mem_cons.mp hname with heq | hmem
    · cases heq
    · exact ih hmore hmem
  | case4 offset c rest hspace hnumeric hstarts taken =>
    rename_i ih
    obtain ⟨more, hmore, rfl⟩ := of_map_cons h
    rcases List.mem_cons.mp hname with heq | hmem
    · cases heq
      exact isWord_of_startsName hstarts rest
    · exact ih hmore hmem
  | case5 offset c rest hspace hnumeric hstarts s hs ih =>
    obtain ⟨more, hmore, rfl⟩ := of_map_cons h
    rcases List.mem_cons.mp hname with heq | hmem
    · cases heq
    · exact ih hmore hmem
  | case6 => cases h

end Token

end PerfCounters
