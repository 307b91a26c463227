import PerfCounters.Proofs.Expressions.Machine
import PerfCounters.Proofs.Expressions.Nesting
import PerfCounters.Proofs.Expressions.Octets

/-! Where errors are. The tokens of a text are parts of it that stand at their offsets, and only spaces are between
    them. The readers take tokens from the front of those that are left, and blame one that they have looked at; so what
    an error names stands in the text at the offset that the error gives. -/

namespace PerfCounters

/-- The part stands in the text, behind this many octets. -/
def StandsAt (text : String) (offset : Nat) (part : String) : Prop :=
  ∃ before after, text = before ++ part ++ after ∧ before.utf8ByteSize = offset

theorem StandsAt.le {text part : String} {offset : Nat} (h : StandsAt text offset part) :
    offset + part.utf8ByteSize ≤ text.utf8ByteSize := by
  obtain ⟨before, after, rfl, rfl⟩ := h
  rw [String.utf8ByteSize_append, String.utf8ByteSize_append]
  exact Nat.le_add_right _ _

namespace Token

def written (t : Token) : String := String.ofList t.lexeme.chars

/-- The octet behind the token. -/
def stop (t : Token) : Nat := t.offset + t.written.utf8ByteSize

/-! ### From texts to tokens -/

/-- From the offset on, the characters are spaces and these tokens. -/
inductive Laid : Nat → List Char → List Token → Prop where
  | done {offset} : Laid offset [] []
  | space {offset c cs ts} (blank : isSpace c = true) (rest : Laid (offset + 1) cs ts) : Laid offset (c :: cs) ts
  | token {t cs ts} (full : t.offset < t.stop) (rest : Laid t.stop cs ts) :
      Laid t.offset (t.lexeme.chars ++ cs) (t :: ts)

variable {c : Char} {cs pre post : List Char} {offset : Nat} {ts : List Token} {e : SyntaxError}

theorem laid_word {u : Lexeme} (hu : Word u.chars c cs)
    (h : Laid (offset + 1 + (u.chars.length - 1)) (cs.drop (u.chars.length - 1)) ts) :
    Laid offset (c :: cs) (⟨u, offset⟩ :: ts) := by
  have hfull := hu.full
  have hstop : stop ⟨u, offset⟩ = offset + 1 + (u.chars.length - 1) := by
    rw [stop, written, utf8ByteSize_ascii hu.ascii]
    dsimp only
    omega
  rw [← hstop] at h
  rw [← hu.split]
  have hlt : offset < stop ⟨u, offset⟩ := by omega
  exact .token (t := ⟨u, offset⟩) hlt h

theorem laid_of_lex (h : lex offset cs = .ok ts) : Laid offset cs ts := by
  fun_induction lex offset cs generalizing ts with
  | case1 offset =>
    cases h
    exact .done
  | case2 offset c rest hspace ih => exact .space hspace (ih h)
  | case3 offset c rest hspace hnumeric taken =>
    rename_i ih
    obtain ⟨more, hmore, rfl⟩ := of_map_cons h
    refine laid_word (u := .number _) ?_ ?_ <;> rw [Lexeme.chars, String.toList_ofList]
    · exact word_number hnumeric rest
    · exact ih hmore
  | case4 offset c rest hspace hnumeric hstarts taken =>
    rename_i ih
    obtain ⟨more, hmore, rfl⟩ := of_map_cons h
    refine laid_word (u := .name _) ?_ ?_ <;> rw [Lexeme.chars, String.toList_ofList]
    · exact word_name hstarts rest
    · exact ih hmore
  | case5 offset c rest hspace hnumeric hstarts s hs ih =>
    obtain ⟨more, hmore, rfl⟩ := of_map_cons h
    refine laid_word (u := .sign s) ?_ ?_ <;> rw [Lexeme.chars, char_of_ofChar? hs]
    · exact word_single (ascii_sign hs) rest
    · exact ih hmore
  | case6 => cases h

theorem Laid.offset_le (h : Laid offset cs ts) : ∀ t ∈ ts, offset ≤ t.offset := by
  induction h with
  | done => exact fun t ht => nomatch ht
  | space _ _ ih => exact fun t ht => Nat.le_of_succ_le (ih t ht)
  | token _ _ ih =>
    exact List.forall_mem_cons.mpr ⟨Nat.le_refl _, fun t ht => (Nat.le_add_right _ _).trans (ih t ht)⟩

theorem Laid.pairwise (h : Laid offset cs ts) : ts.Pairwise fun t u => t.stop ≤ u.offset := by
  induction h with
  | done => exact .nil
  | space _ _ ih => exact ih
  | token _ rest ih => exact .cons rest.offset_le ih

theorem Laid.stands (h : Laid offset cs ts) (before : String) (hbefore : before.utf8ByteSize = offset) :
    ∀ t ∈ ts, StandsAt (before ++ String.ofList cs) t.offset t.written ∧ t.offset < t.stop := by
  induction h generalizing before with
  | done => exact fun t ht => nomatch ht
  | @space offset c cs ts blank rest ih =>
    have hword := word_single (ascii_isSpace c blank) cs
    rw [hword.whole]
    exact ih _ (by rw [hword.size, hbefore]; rfl)
  | @token t cs ts full rest ih =>
    have hsize : (before ++ t.written).utf8ByteSize = t.stop := by rw [String.utf8ByteSize_append, hbefore, stop]
    have hrest := ih _ hsize
    have hsplit : before ++ String.ofList (t.lexeme.chars ++ cs) = before ++ t.written ++ String.ofList cs := by
      rw [String.ofList_append, ← String.append_assoc, written]
    rw [hsplit]
    exact List.forall_mem_cons.mpr ⟨⟨⟨before, String.ofList cs, rfl, hbefore⟩, full⟩, hrest⟩

theorem Laid.gap (h : Laid offset cs ts) (hcs : cs = pre ++ c :: post) : isSpace c = true ∨
    ∃ t ∈ ts, t.offset ≤ offset + (String.ofList pre).utf8ByteSize ∧
      offset + (String.ofList pre).utf8ByteSize < t.stop := by
  induction h generalizing pre with
  | done => simp at hcs
  | @space offset d cs ts blank rest ih =>
    cases pre with
    | nil =>
      cases hcs
      exact .inl blank
    | cons d' pre =>
      cases hcs
      have hsize : (String.ofList (d :: pre)).utf8ByteSize = 1 + (String.ofList pre).utf8ByteSize := by
        rw [← List.singleton_append, String.ofList_append, String.utf8ByteSize_append,
          utf8ByteSize_ascii (List.forall_mem_singleton.mpr (ascii_isSpace d blank))]
        rfl
      have hrest := ih rfl
      rwa [hsize, ← Nat.add_assoc]
  | @token t cs ts full rest ih =>
    rcases List.append_eq_append_iff.mp hcs with ⟨inner, hpre, hrest⟩ | ⟨inner, hchars, hrest⟩
    · have hsize : t.offset + (String.ofList pre).utf8ByteSize = t.stop + (String.ofList inner).utf8ByteSize := by
        rw [hpre, String.ofList_append, String.utf8ByteSize_append, stop, written, Nat.add_assoc]
      rw [hsize]
      exact (ih hrest).imp_right fun ⟨u, hu, hin⟩ => ⟨u, List.mem_cons_of_mem t hu, hin⟩
    · cases inner with
      | nil =>
        have hsize : t.offset + (String.ofList pre).utf8ByteSize = t.stop + (String.ofList []).utf8ByteSize := by
          rw [stop, written, hchars, List.append_nil]
          rfl
        rw [hsize]
        have hnext : cs = [] ++ c :: post := hrest.symm
        exact (ih hnext).imp_right fun ⟨u, hu, hin⟩ => ⟨u, List.mem_cons_of_mem t hu, hin⟩
      | cons d inner =>
        refine .inr ⟨t, List.mem_cons_self, Nat.le_add_right _ _, Nat.add_lt_add_left ?_ _⟩
        have hpos := d.utf8Size_pos
        rw [written, hchars, String.ofList_append, String.utf8ByteSize_append, ← List.singleton_append,
          String.ofList_append, String.utf8ByteSize_append, ← String.singleton_eq_ofList, String.utf8ByteSize_singleton]
        omega

/-- The tokens are parts of the text, one behind the other, and every character outside of them is a space. -/
structure Cuts (text : String) (ts : List Token) : Prop where
  stands : ∀ t ∈ ts, StandsAt text t.offset t.written ∧ t.offset < t.stop
  ordered : ts.Pairwise fun t u => t.stop ≤ u.offset
  gaps : ∀ pre c post, text.toList = pre ++ c :: post → isSpace c = true ∨
    ∃ t ∈ ts, t.offset ≤ (String.ofList pre).utf8ByteSize ∧ (String.ofList pre).utf8ByteSize < t.stop

theorem cuts_of_ofText {text : String} (h : ofText text = .ok ts) : Cuts text ts := by
  have hlaid := laid_of_lex h
  refine ⟨?_, hlaid.pairwise, fun pre c post hsplit => ?_⟩
  · have hstands := hlaid.stands "" rfl
    rwa [String.empty_append, String.ofList_toList] at hstands
  · have hgap := hlaid.gap hsplit
    rwa [Nat.zero_add] at hgap

theorem of_map_error {α β : Type} {x : Except SyntaxError α} {f : α → β} (h : x.map f = .error e) : x = .error e := by
  cases x with
  | error e' =>
    cases h
    rfl
  | ok a => cases h

theorem stands_of_lex_error (h : lex offset cs = .error e) (before : String) (hbefore : before.utf8ByteSize = offset) :
    ∃ at' c, e = .unexpectedChar at' c ∧ StandsAt (before ++ String.ofList cs) at' (String.singleton c) := by
  fun_induction lex offset cs generalizing before with
  | case1 offset => cases h
  | case2 offset c rest hspace ih =>
    have hword := word_single (ascii_isSpace c hspace) rest
    rw [hword.whole]
    exact ih h _ (by rw [hword.size, hbefore]; rfl)
  | case3 offset c rest hspace hnumeric taken =>
    rename_i ih
    have hword := word_number hnumeric rest
    rw [hword.whole]
    exact ih (of_map_error h) _ (by rw [hword.size, hbefore])
  | case4 offset c rest hspace hnumeric hstarts taken =>
    rename_i ih
    have hword := word_name hstarts rest
    rw [hword.whole]
    exact ih (of_map_error h) _ (by rw [hword.size, hbefore])
  | case5 offset c rest hspace hnumeric hstarts s hs ih =>
    have hword := word_single (ascii_sign hs) rest
    rw [hword.whole]
    exact ih (of_map_error h) _ (by rw [hword.size, hbefore]; rfl)
  | case6 offset c rest hspace hnumeric hstarts hs =>
    cases h
    refine ⟨_, _, rfl, before, String.ofList rest, ?_, hbefore⟩
    rw [String.singleton_eq_ofList, String.append_assoc, ← String.ofList_append, List.singleton_append]

end Token

/-! ### From tokens to errors -/

/-- The octet that an error is at. -/
def SyntaxError.offset? : SyntaxError → Option Nat
  | .unexpectedEnd _ => none
  | .unexpectedChar offset _ | .unexpectedToken offset _ _ | .invalidNumber offset _ | .invalidReduceOperator offset _
  | .invalidAccumulateMode offset _ | .unknownDimension offset _ | .invalidSelectValue offset _ | .nestingTooDeep offset =>
    some offset

/-- The error is about one of these tokens: it is at the offset of the token, and tells what the token is. -/
def SyntaxError.Blames (P : Token → Prop) : SyntaxError → Prop
  | .unexpectedChar _ _ => False
  | .unexpectedEnd _ => True
  | .unexpectedToken offset _ found => ∃ t, P t ∧ t.offset = offset ∧ t.lexeme.quoted = found
  | .invalidNumber offset text | .invalidSelectValue offset text => P ⟨.number text, offset⟩
  | .invalidReduceOperator offset name | .invalidAccumulateMode offset name | .unknownDimension offset name =>
    P ⟨.name name, offset⟩
  | .nestingTooDeep offset => ∃ t, P t ∧ t.offset = offset

theorem SyntaxError.Blames.mono {P Q : Token → Prop} {e : SyntaxError} (h : e.Blames P) (hQ : ∀ t, P t → Q t) :
    e.Blames Q := by
  cases e with
  | unexpectedChar => exact h
  | unexpectedEnd => trivial
  | unexpectedToken =>
    obtain ⟨t, ht, hfound⟩ := h
    exact ⟨t, hQ t ht, hfound⟩
  | nestingTooDeep =>
    obtain ⟨t, ht, hoffset⟩ := h
    exact ⟨t, hQ t ht, hoffset⟩
  | _ => exact hQ _ h

theorem SyntaxError.Blames.exists {P : Token → Prop} {e : SyntaxError} {offset : Nat} (h : e.Blames P)
    (hoffset : e.offset? = some offset) : ∃ t, P t ∧ t.offset = offset := by
  cases e with
  | unexpectedChar => exact h.elim
  | unexpectedEnd => cases hoffset
  | unexpectedToken =>
    cases hoffset
    obtain ⟨t, ht, heq, -⟩ := h
    exact ⟨t, ht, heq⟩
  | nestingTooDeep =>
    cases hoffset
    exact h
  | _ =>
    cases hoffset
    exact ⟨_, h, rfl⟩

namespace Parser

variable {α β : Type} {left : α → List Token} {left' : β → List Token} {x : Except SyntaxError α}
  {k : α → Except SyntaxError β} {ts us : List Token} {e : SyntaxError}

/-- What is left after an answer is the end of the tokens, and an error is about one of them. -/
def Accounts (left : α → List Token) (ts : List Token) : Except SyntaxError α → Prop
  | .ok a => left a <:+ ts
  | .error e => e.Blames (· ∈ ts)

theorem Accounts.mono (h : Accounts left us x) (hus : us <:+ ts) : Accounts left ts x := by
  cases x with
  | ok a => exact h.trans hus
  | error e => exact SyntaxError.Blames.mono h fun t ht => hus.mem ht

theorem Accounts.bind (hx : Accounts left ts x) (hk : ∀ a, x = .ok a → left a <:+ ts → Accounts left' ts (k a)) :
    Accounts left' ts (x >>= k) := by
  cases x with
  | ok a => exact hk a rfl hx
  | error e => exact hx

/-- What comes after looks at nothing but what is left. -/
theorem Accounts.then (hx : Accounts left ts x) (hk : ∀ a, Accounts left' (left a) (k a)) : Accounts left' ts (x >>= k) :=
  hx.bind fun a _ ha => (hk a).mono ha

theorem accounts_pure (a : α) (ts : List Token) : Accounts Prod.snd ts (pure (a, ts)) := List.suffix_refl ts

theorem accounts_unexpected (left : α → List Token) (expected : String) (ts : List Token) :
    Accounts left ts (unexpected expected ts) := by
  cases ts with
  | nil => trivial
  | cons t ts => exact ⟨t, List.mem_cons_self, rfl, rfl⟩

theorem accounts_expect (s : Sign) (ts : List Token) : Accounts id ts (expect s ts) := by
  unfold expect
  split
  · split
    · exact List.suffix_cons _ _
    · exact accounts_unexpected _ _ _
  · exact accounts_unexpected _ _ _

theorem accounts_name (expected : String) (ts : List Token) : Accounts Prod.snd ts (name expected ts) := by
  unfold name
  split
  · exact List.suffix_cons _ _
  · exact accounts_unexpected _ _ _

/-- A name that is looked up may be blamed. -/
theorem accounts_named {expected : String} {k : (String × Nat) × List Token → Except SyntaxError β}
    (hk : ∀ text offset rest, ⟨.name text, offset⟩ ∈ ts → rest <:+ ts → Accounts left' ts (k ((text, offset), rest))) :
    Accounts left' ts (name expected ts >>= k) := by
  refine (accounts_name expected ts).bind fun ⟨⟨text, offset⟩, rest⟩ hname hrest => hk text offset rest ?_ hrest
  rw [name_eq_ok.mp hname]
  exact List.mem_cons_self

theorem accounts_dimension (ts : List Token) : Accounts Prod.snd ts (dimension ts) := by
  refine accounts_named fun text offset rest hmem hrest => ?_
  dsimp only
  split
  · exact hrest
  · exact hmem

theorem accounts_selectValue (ts : List Token) : Accounts Prod.snd ts (selectValue ts) := by
  unfold selectValue
  split
  · split
    · exact List.suffix_cons _ _
    · exact List.mem_cons_self
  · exact accounts_unexpected _ _ _

theorem accounts_dimensions (ts : List Token) : Accounts Prod.snd ts (dimensions ts) := by
  fun_induction dimensions ts with
  | case1 ts e hd =>
    have hfirst := accounts_dimension ts
    rwa [hd] at hfirst
  | case2 ts d offset more hd e hmore ih =>
    have hfirst := accounts_dimension ts
    rw [hd] at hfirst
    rw [hmore] at ih
    exact ih.mono ((List.suffix_cons _ _).trans hfirst)
  | case3 ts d offset more hd ds rest hmore ih =>
    have hfirst := accounts_dimension ts
    rw [hd] at hfirst
    rw [hmore] at ih
    exact ih.mono ((List.suffix_cons _ _).trans hfirst)
  | case4 ts d rest hnot hd =>
    have hfirst := accounts_dimension ts
    rwa [hd] at hfirst

theorem accounts_selectValues (d : Dimension) (filters : Filters) (ts : List Token) :
    Accounts Prod.snd ts (selectValues d filters ts) := by
  fun_induction selectValues d filters ts with
  | case1 filters ts e hn =>
    have hfirst := accounts_selectValue ts
    rwa [hn] at hfirst
  | case2 filters ts n offset more hn ih =>
    have hfirst := accounts_selectValue ts
    rw [hn] at hfirst
    exact ih.mono ((List.suffix_cons _ _).trans hfirst)
  | case3 filters ts n rest hnot hn =>
    have hfirst := accounts_selectValue ts
    rwa [hn] at hfirst

theorem accounts_filter (filters : Filters) (ts : List Token) : Accounts Prod.snd ts (filter filters ts) :=
  (accounts_dimension ts).then fun ⟨d, afterName⟩ =>
  (accounts_expect .equals afterName).then fun afterEquals =>
  (accounts_expect .leftBracket afterEquals).then fun values =>
  (accounts_selectValues d filters values).then fun ⟨_, afterValues⟩ =>
  (accounts_expect .rightBracket afterValues).then fun _ => accounts_pure _ _

theorem accounts_filterList (filters : Filters) (ts : List Token) : Accounts Prod.snd ts (filterList filters ts) := by
  fun_induction filterList filters ts with
  | case1 filters ts e hx =>
    have hfirst := accounts_filter filters ts
    rwa [hx] at hfirst
  | case2 filters ts kept offset more hx ih =>
    have hfirst := accounts_filter filters ts
    rw [hx] at hfirst
    exact ih.mono ((List.suffix_cons _ _).trans hfirst)
  | case3 filters ts kept rest hnot hx =>
    have hfirst := accounts_filter filters ts
    rwa [hx] at hfirst

theorem accounts_accumulateCall (ts : List Token) : Accounts Prod.snd ts (accumulateCall ts) := by
  refine (accounts_expect .leftParen ts).then fun inside => ?_
  refine (accounts_name _ inside).then fun ⟨_, afterMetric⟩ => ?_
  refine (accounts_expect .comma afterMetric).then fun afterComma => ?_
  refine accounts_named fun text offset afterMode hmem hrest => ?_
  dsimp only
  split
  · exact hmem
  · exact ((accounts_expect .rightParen afterMode).then fun _ => accounts_pure _ _).mono hrest

theorem accounts_reduceRest (child : Expr) (ts : List Token) : Accounts Prod.snd ts (reduceRest child ts) := by
  refine (accounts_expect .comma ts).then fun afterComma => ?_
  refine accounts_named fun text offset afterName hmem hrest => ?_
  dsimp only
  split
  · exact hmem
  · refine Accounts.mono ?_ hrest
    split
    · rename_i at' axes
      refine Accounts.mono ?_ (List.suffix_cons _ axes)
      refine (accounts_expect .leftBracket axes).then fun inside => ?_
      refine (accounts_dimensions inside).then fun ⟨_, afterList⟩ => ?_
      refine (accounts_expect .rightBracket afterList).then fun afterAxes => ?_
      exact (accounts_expect .rightParen afterAxes).then fun _ => accounts_pure _ _
    · exact (accounts_expect .rightParen _).then fun _ => accounts_pure _ _

theorem accounts_selectRest (child : Expr) (ts : List Token) : Accounts Prod.snd ts (selectRest child ts) := by
  refine (accounts_expect .comma ts).then fun afterComma => ?_
  refine (accounts_expect .leftBracket afterComma).then fun inside => ?_
  refine (accounts_filterList [] inside).then fun ⟨_, afterFilters⟩ => ?_
  refine (accounts_expect .rightBracket afterFilters).then fun afterList => ?_
  exact (accounts_expect .rightParen afterList).then fun _ => accounts_pure _ _

namespace Machine

variable {m : Machine} {f : Frame} {r : Reader} {offset : Nat}

/-- The tokens that are left are the end of these, and an error is about one of them. -/
structure Traced (ts : List Token) (m : Machine) : Prop where
  left : m.tokens <:+ ts
  blames : ∀ e, m.control = .leave (.error e) → e.Blames (· ∈ ts)

theorem traced_call (h : m.tokens <:+ ts) : Traced ts (m.call f r) := ⟨h, nofun⟩

theorem traced_fail (h : m.tokens <:+ ts) (he : e.Blames (· ∈ m.tokens)) : Traced ts (m.fail e) := by
  refine ⟨h, fun e' heq => ?_⟩
  cases heq
  exact he.mono fun t ht => h.mem ht

theorem traced_settle {x : Except SyntaxError (Expr × List Token)} (h : m.tokens <:+ ts)
    (hx : Accounts Prod.snd m.tokens x) : Traced ts (m.settle x) := by
  cases x with
  | ok x => exact ⟨hx.trans h, nofun⟩
  | error e => exact traced_fail h hx

theorem traced_deeper {enter : Machine → Machine} (h : m.tokens <:+ ts) (hoffset : ∃ t ∈ m.tokens, t.offset = offset)
    (henter : Traced ts (enter { m with depth := m.depth + 1 })) : Traced ts (m.deeper offset enter) := by
  rw [deeper]
  split
  · exact henter
  · exact traced_fail h hoffset

theorem traced_chain (h : m.tokens <:+ ts) (c : Chain) (entered : Nat) (lhs : Expr) :
    Traced ts (m.chain c entered lhs) := by
  rw [chain]
  split
  · rename_i op offset rest hnext
    obtain ⟨s, htokens, -⟩ := Chain.next?_eq_some hnext
    have hrest : rest <:+ ts := (List.suffix_cons _ _).trans (htokens ▸ h)
    exact traced_deeper h ⟨⟨.sign s, offset⟩, htokens ▸ List.mem_cons_self, rfl⟩ (traced_call hrest)
  · exact ⟨h, fun e he => by cases he⟩

theorem traced_argument (h : m.tokens <:+ ts) : Traced ts (m.argument f) := by
  have hparen := accounts_expect .leftParen m.tokens
  rw [argument]
  split
  · rename_i rest heq
    rw [heq] at hparen
    exact traced_call (hparen.trans h)
  · rename_i e heq
    rw [heq] at hparen
    exact traced_fail h hparen

theorem traced_enter (h : m.tokens <:+ ts) (r : Reader) : Traced ts (m.enter r) := by
  cases r with
  | expr => exact traced_call h
  | term => exact traced_call h
  | unary =>
    rw [enter]
    split
    · rename_i offset rest heq
      have hrest : rest <:+ ts := (List.suffix_cons _ _).trans (heq ▸ h)
      exact traced_deeper h ⟨_, heq ▸ List.mem_cons_self, rfl⟩ (traced_call hrest)
    · exact traced_call h
  | factor =>
    rw [enter]
    split
    · rename_i text offset rest heq
      split
      · exact traced_settle h (heq ▸ List.suffix_cons _ _)
      · exact traced_fail h (heq ▸ List.mem_cons_self)
    · rename_i offset rest heq
      have hrest : rest <:+ ts := (List.suffix_cons _ _).trans (heq ▸ h)
      exact traced_deeper h ⟨_, heq ▸ List.mem_cons_self, rfl⟩ (traced_call hrest)
    · rename_i text offset at' rest heq
      refine traced_deeper h ⟨_, heq ▸ List.mem_cons_self, rfl⟩ ?_
      split
      · exact traced_call ((List.suffix_cons _ _).trans (heq ▸ h))
      · exact traced_fail h ⟨_, heq ▸ List.mem_cons_self, rfl, rfl⟩
    · rename_i text offset rest hnoCall heq
      exact traced_settle h (heq ▸ List.suffix_cons _ _)
    · exact traced_settle h (accounts_unexpected _ _ _)
  | reduce => exact traced_argument h
  | select => exact traced_argument h
  | accumulate => exact traced_settle h (accounts_accumulateCall _)

theorem traced_shallower (h : Traced ts m) : Traced ts m.shallower := by
  unfold shallower
  split
  · exact ⟨h.left, nofun⟩
  · exact ⟨h.left, h.blames⟩

theorem traced_resume (h : Traced ts m) (f : Frame) (e : Expr) : Traced ts (m.resume f e) := by
  rw [resume]
  split
  · exact traced_chain h.left _ _ _
  · exact traced_shallower (traced_settle h.left (List.suffix_refl _))
  · exact h
  · have hparen := accounts_expect .rightParen m.tokens
    split
    · rename_i rest heq
      rw [heq] at hparen
      exact traced_shallower (traced_settle h.left hparen)
    · rename_i e heq
      rw [heq] at hparen
      exact traced_fail h.left hparen
  · exact traced_shallower h
  · exact traced_settle h.left (accounts_reduceRest e _)
  · exact traced_settle h.left (accounts_selectRest e _)

theorem Traced.step (h : Traced ts m) : Traced ts m.step := by
  unfold Machine.step
  split
  · exact traced_enter h.left _
  · rename_i e f calls _ _
    exact traced_resume (m := { m with calls }) ⟨h.left, h.blames⟩ f e
  · exact ⟨h.left, h.blames⟩
  · exact h

theorem Traced.reaches {m' : Machine} (h : Traced ts m) (hm : Reaches m m') : Traced ts m' := by
  obtain ⟨n, rfl⟩ := hm
  induction n with
  | zero => exact h
  | succ n ih =>
    rw [Function.iterate_succ_apply']
    exact ih.step

end Machine

theorem accounts_answer (r : Reader) (depth : Nat) (ts : List Token) : Accounts Prod.snd ts (r.answer depth ts) := by
  have hstart : Machine.Traced ts ⟨.enter r, [], ts, depth⟩ := ⟨List.suffix_refl _, nofun⟩
  have hruns := runs r depth ts []
  rcases hanswer : r.answer depth ts with e | ⟨e, rest⟩
  · rw [hanswer] at hruns
    obtain ⟨rest, d, hreaches⟩ := hruns
    exact (hstart.reaches hreaches).blames e rfl
  · rw [hanswer] at hruns
    exact (hstart.reaches hruns).left

theorem blames_of_ofTokens (h : ofTokens ts = .error e) : e.Blames (· ∈ ts) := by
  have hall : Accounts (fun _ => []) ts (ofTokens ts) := by
    refine (accounts_answer .expr 0 ts).then fun ⟨e, rest⟩ => ?_
    dsimp only
    split
    · exact List.nil_suffix
    · exact accounts_unexpected _ _ _
  rwa [h] at hall

end Parser

/-! ### Locations -/

/-- A token of the text, which stands there. -/
def Token.In (text : String) (t : Token) : Prop :=
  (∃ ts, ofText text = .ok ts ∧ t ∈ ts) ∧ StandsAt text t.offset t.written

/-- The error is at an octet of the text, and what it names stands there. -/
structure SyntaxError.Located (text : String) (e : SyntaxError) : Prop where
  inside : ∀ offset, e.offset? = some offset → offset < text.utf8ByteSize
  names : (∃ offset c, e = .unexpectedChar offset c ∧ StandsAt text offset (String.singleton c)) ∨ e.Blames (Token.In text)

variable {text : String} {ts : List Token} {e : SyntaxError}

theorem located_of_stands {offset : Nat} {c : Char} (h : StandsAt text offset (String.singleton c)) :
    (SyntaxError.unexpectedChar offset c).Located text := by
  refine ⟨fun offset' heq => ?_, .inl ⟨offset, c, rfl, h⟩⟩
  cases heq
  have hle := h.le
  rw [String.utf8ByteSize_singleton] at hle
  have := c.utf8Size_pos
  omega

theorem located_of_blames (hts : Token.ofText text = .ok ts) (h : e.Blames (· ∈ ts)) : e.Located text := by
  have hcuts := Token.cuts_of_ofText hts
  refine ⟨fun offset hoffset => ?_, .inr (h.mono fun t ht => ⟨⟨ts, hts, ht⟩, (hcuts.stands t ht).1⟩)⟩
  obtain ⟨t, ht, rfl⟩ := h.exists hoffset
  obtain ⟨hstands, hstop⟩ := hcuts.stands t ht
  exact Nat.lt_of_lt_of_le hstop hstands.le

theorem located_of_ofText (h : Expr.ofText text = .error e) : e.Located text := by
  rcases hts : Token.ofText text with e' | ts
  · rw [Expr.ofText, hts] at h
    cases h
    obtain ⟨offset, c, rfl, hstands⟩ := Token.stands_of_lex_error hts "" rfl
    rw [String.empty_append, String.ofList_toList] at hstands
    exact located_of_stands hstands
  · rw [Expr.ofText, hts] at h
    exact located_of_blames hts (Parser.blames_of_ofTokens h)

/-- Whatever the text is: it is sliced between characters only, its tokens are parts of it with spaces between them, and
    what an error names stands at the octet that the error gives. -/
theorem locations_exact (text : String) :
    Token.walk text 0 = some (Token.ofText text) ∧
    (∀ ts, Token.ofText text = .ok ts → Token.Cuts text ts) ∧
    (∀ e, Expr.ofText text = .error e → e.Located text) :=
  ⟨Token.walk_eq text, fun _ => Token.cuts_of_ofText, fun _ => located_of_ofText⟩

/-- The operator that is not known is a token of this text, at its eleventh octet. -/
theorem median_located :
    Expr.ofText "reduce(A, median)" = .error (.invalidReduceOperator 10 "median") ∧
    (SyntaxError.invalidReduceOperator 10 "median").Located "reduce(A, median)" :=
  have hread : Expr.ofText "reduce(A, median)" = .error (.invalidReduceOperator 10 "median") := by cbv
  ⟨hread, (locations_exact "reduce(A, median)").2.2 _ hread⟩

end PerfCounters
