import PerfCounters.Proofs.Instances.Fields

/-! Any number of values laid out over a layout. The positions of a value are the digits of its number, the sizes of
    the axes being the radices and the last axis the lowest digit. The first axis takes all that the others leave, so
    it is the slot of this axis that bounds the number of values, and the positions tell the values apart. -/

namespace PerfCounters

open InstanceId

namespace Layout

variable {α : Type} {l r rest before after : Layout} {a b : Axis} {o : InstanceId}
  {i j k : Nat} {ps qs : List (Dimension × Nat)}
  {values : List α}

/-! ### Digits -/

theorem Proper.count_eq (h : l.Proper) : l.count = (l.map Axis.size).prod := by
  rw [count_eq_prod, List.map_congr_left fun a ha => Nat.max_eq_left (h.size_pos ha)]

theorem Proper.behind (h : Proper (before ++ b :: after)) : after.Proper := by
  induction before with
  | nil => exact h.tail
  | cons a before ih => exact ih h.tail

theorem positionsBackwards_concat (r : Layout) (a : Axis) (i : Nat) :
    positionsBackwards (r ++ [a]) i = digits r i ++ [(a.dimension, i / r.count)] := by
  induction r generalizing i with
  | nil =>
    show [(a.dimension, i)] = [(a.dimension, i / 1)]
    rw [Nat.div_one]
  | cons b r ih =>
    obtain ⟨x, more, hmore⟩ := List.exists_cons_of_ne_nil (List.append_ne_nil_of_right_ne_nil r (List.cons_ne_nil a []))
    have hstep : positionsBackwards (b :: (r ++ [a])) i =
        (b.dimension, i % max b.size 1) :: positionsBackwards (r ++ [a]) (i / max b.size 1) := by
      rw [hmore]
      rfl
    rw [List.cons_append, hstep, ih, Nat.div_div_eq_div_mul, ← count_cons]
    rfl

/-- The first axis takes the whole quotient. -/
theorem positions_cons (a : Axis) (rest : Layout) (i : Nat) :
    positions (a :: rest) i = digits rest.reverse i ++ [(a.dimension, i / rest.count)] := by
  rw [positions, List.reverse_cons, positionsBackwards_concat, count_reverse]

theorem map_fst_digits (r : Layout) (i : Nat) : (digits r i).map Prod.fst = r.map Axis.dimension := by
  induction r generalizing i with
  | nil => rfl
  | cons a r ih => rw [digits, List.map_cons, ih, List.map_cons]

theorem map_fst_positions (a : Axis) (rest : Layout) (i : Nat) :
    (positions (a :: rest) i).map Prod.fst = (a :: rest).reverse.map Axis.dimension := by
  rw [positions_cons, List.map_append, map_fst_digits, List.reverse_cons, List.map_append]
  rfl

/-- The digit of an axis: the axes behind it have the lower digits. -/
theorem digit_mem_positions (a : Axis) (before : Layout) (b : Axis) (after : Layout) (i : Nat) :
    (b.dimension, i / after.count % max b.size 1) ∈ positions (a :: (before ++ b :: after)) i := by
  rw [positions_cons, List.reverse_append, List.reverse_cons, List.append_assoc, digits_append, count_reverse]
  exact List.mem_append_left _ (List.mem_append_right _ List.mem_cons_self)

theorem eq_of_digits (r : Layout) (hdigits : digits r i = digits r j) (hrest : i / r.count = j / r.count) : i = j := by
  induction r generalizing i j with
  | nil => simpa [count] using hrest
  | cons a r ih =>
    obtain ⟨hhead, htail⟩ := List.cons.inj hdigits
    rw [count_cons, ← Nat.div_div_eq_div_mul, ← Nat.div_div_eq_div_mul] at hrest
    have hmod : i % max a.size 1 = j % max a.size 1 := congrArg Prod.snd hhead
    rw [← Nat.div_add_mod i (max a.size 1), ← Nat.div_add_mod j (max a.size 1), ih htail hrest, hmod]

theorem positions_injective (a : Axis) (rest : Layout) (h : positions (a :: rest) i = positions (a :: rest) j) : i = j := by
  rw [positions_cons, positions_cons] at h
  obtain ⟨hdigits, hlast⟩ := List.append_inj' h rfl
  refine eq_of_digits rest.reverse hdigits ?_
  rw [count_reverse]
  exact congrArg Prod.snd (List.cons.inj hlast).1

/-! ### Ids -/

/-- The positions of a record fit, if what is left for the first axis does. -/
theorem packable_positions (h : Proper (a :: rest)) (hi : i / rest.count < maxAxisSize) :
    Packable (positions (a :: rest) i) := by
  have hmem : ∀ x ∈ positions (a :: rest) i, x.1 ≠ .none ∧ x.2 < maxAxisSize := by
    intro x hx
    rw [positions_cons] at hx
    rcases List.mem_append.mp hx with hx | hx
    · exact mem_digits h.tail.reverse hx
    · rw [List.mem_singleton.mp hx]
      exact ⟨(encodable_iff.mp (h.encodable a List.mem_cons_self)).1, hi⟩
  exact ⟨fun x hx => (hmem x hx).1, fun x hx => (hmem x hx).2, map_fst_positions a rest i ▸ h.reverse.distinct⟩

/-- The id tells the positions along the dimensions that were placed. -/
theorem place_injective (hps : Packable ps) (hqs : Packable qs) (hdims : ps.map Prod.fst = qs.map Prod.fst)
    (h : place o ps = place o qs) : ps = qs := by
  have htold : ∀ {ps : List (Dimension × Nat)}, Packable ps →
      ps = (ps.map Prod.fst).map fun d => (d, (place o ps).position d) := by
    intro ps hps
    rw [List.map_map]
    conv_lhs => rw [← List.map_id ps]
    refine List.map_congr_left fun x hx => ?_
    show x = (x.1, (place o ps).position x.1)
    rw [position_place_of_mem hps hx]
  rw [htold hps, htold hqs, hdims, h]

/-- A last position that does not fit is the one that is refused. -/
theorem pack_concat (hk : k ≤ maxCounterId) (hps : ∀ p ∈ ps, p.2 < 2 ^ p.1.width) (x : Dimension × Nat) :
    pack k (ps ++ [x]) = (place (zero.withCounter k) ps).setPosition x.1 x.2 := by
  have hfirst := pack_eq_ok hk hps
  unfold pack at hfirst ⊢
  rw [setCounter_eq_ok hk] at hfirst ⊢
  have hfold : ps.foldlM (fun id p => id.setPosition p.1 p.2) (zero.withCounter k) = .ok (place (zero.withCounter k) ps) :=
    hfirst
  show (ps ++ [x]).foldlM (fun id p => id.setPosition p.1 p.2) (zero.withCounter k) = _
  rw [List.foldlM_append, hfold]
  show [x].foldlM (fun id p => id.setPosition p.1 p.2) (place (zero.withCounter k) ps) = _
  rw [List.foldlM_cons]
  cases (place (zero.withCounter k) ps).setPosition x.1 x.2 <;> rfl

theorem pack_positions_ok (h : Proper (a :: rest)) (hk : k ≤ maxCounterId) (hi : i / rest.count < maxAxisSize) :
    pack k (positions (a :: rest) i) = .ok (place (zero.withCounter k) (positions (a :: rest) i)) :=
  pack_eq_ok hk fun _ hx => (packable_positions h hi).lt_width hx

theorem pack_positions_error (h : Proper (a :: rest)) (hk : k ≤ maxCounterId) (hi : maxAxisSize ≤ i / rest.count) :
    pack k (positions (a :: rest) i) = .error (.positionOverflow a.dimension (i / rest.count) (maxAxisSize - 1)) := by
  have hslot := (encodable_iff.mp (h.encodable a List.mem_cons_self)).1
  have hmax : a.dimension.maxPosition = maxAxisSize - 1 := by
    rw [Dimension.maxPosition, width_of_ne hslot]
    rfl
  have hfits : ∀ p ∈ digits rest.reverse i, p.2 < 2 ^ p.1.width := fun p hp =>
    lt_two_pow_width (mem_digits h.tail.reverse hp).1 (mem_digits h.tail.reverse hp).2
  rw [positions_cons, pack_concat hk hfits, setPosition, hmax, if_pos]
  exact Nat.lt_of_lt_of_le (by decide) hi

/-! ### Records -/

/-- The record of the value with this number. -/
def record (k : Nat) (l : Layout) (x : α × Nat) : Sample α :=
  { id := place (zero.withCounter k) (l.positions x.2), value := x.1 }

theorem layOut_eq_ok (h : Proper (a :: rest)) (hk : k ≤ maxCounterId) (hlen : values.length ≤ maxAxisSize * rest.count) :
    Sample.layOut k (a :: rest) values = .ok (values.zipIdx.map (record k (a :: rest))) := by
  refine mapM_eq_ok fun x hx => ?_
  have hlt : x.2 < maxAxisSize * rest.count := Nat.lt_of_lt_of_le (List.mem_zipIdx' hx).1 hlen
  show (do return ({ id := ← pack k (positions (a :: rest) x.2), value := x.1 } : Sample α)) = _
  rw [pack_positions_ok h hk (Nat.div_lt_of_lt_mul (Nat.mul_comm _ _ ▸ hlt))]
  rfl

/-- The first value for which the slot of the first axis is too small is refused. -/
theorem layOut_eq_error (h : Proper (a :: rest)) (hk : k ≤ maxCounterId) (hlen : maxAxisSize * rest.count < values.length) :
    Sample.layOut k (a :: rest) values = .error (.positionOverflow a.dimension maxAxisSize (maxAxisSize - 1)) := by
  obtain ⟨before, x, after, hsplit, hbefore⟩ : ∃ before x after, values = before ++ x :: after ∧
      before.length = maxAxisSize * rest.count :=
    ⟨values.take _, values[maxAxisSize * rest.count], values.drop _,
      by rw [← List.drop_eq_getElem_cons, List.take_append_drop], List.length_take_of_le (Nat.le_of_lt hlen)⟩
  unfold Sample.layOut
  rw [hsplit, List.zipIdx_append, List.zipIdx_cons, Nat.zero_add, hbefore]
  refine mapM_eq_error (fun y hy => ?_) ?_
  · have hlt : y.2 < maxAxisSize * rest.count := hbefore ▸ (List.mem_zipIdx' hy).1
    refine ⟨record k (a :: rest) y, ?_⟩
    show (do return ({ id := ← pack k (positions (a :: rest) y.2), value := y.1 } : Sample α)) = _
    rw [pack_positions_ok h hk (Nat.div_lt_of_lt_mul (Nat.mul_comm _ _ ▸ hlt))]
    rfl
  · have hquotient : maxAxisSize * rest.count / rest.count = maxAxisSize := Nat.mul_div_cancel _ (count_pos rest)
    show (do return ({ id := ← pack k (positions (a :: rest) (maxAxisSize * rest.count)), value := x } : Sample α)) = _
    rw [pack_positions_error h hk (Nat.le_of_eq hquotient.symm), hquotient]
    rfl

theorem record_position (h : Proper (a :: rest)) (hk : k ≤ maxCounterId) {x : α × Nat}
    (hi : x.2 / rest.count < maxAxisSize) :
    (record k (a :: rest) x).id.counter = k ∧
      (record k (a :: rest) x).id.position a.dimension = x.2 / (rest.map Axis.size).prod ∧
      (∀ before b after, rest = before ++ b :: after →
        (record k (a :: rest) x).id.position b.dimension = x.2 / (after.map Axis.size).prod % b.size) ∧
      ∀ d, d ≠ .none → d ∉ (a :: rest).map Axis.dimension → (record k (a :: rest) x).id.position d = 0 := by
  have hpackable := packable_positions h hi
  refine ⟨?_, ?_, ?_, fun d hd hnot => ?_⟩
  · show (place _ _).counter = k
    rw [counter_place hpackable]
    exact read_write_same fits_counter (Nat.lt_succ_of_le hk)
  · rw [← h.tail.count_eq]
    refine position_place_of_mem hpackable (x := (a.dimension, x.2 / rest.count)) ?_ _
    rw [positions_cons]
    exact List.mem_append_right _ List.mem_cons_self
  · rintro before b after rfl
    have hsize : max b.size 1 = b.size := Nat.max_eq_left (h.tail.size_pos (by simp))
    rw [← h.tail.behind.count_eq, ← hsize]
    exact position_place_of_mem hpackable (digit_mem_positions a before b after x.2) _
  · have hnot' : d ∉ (positions (a :: rest) x.2).map Prod.fst := by
      rwa [map_fst_positions, List.map_reverse, List.mem_reverse]
    show (place _ _).position d = 0
    rw [position_place_of_not_mem hpackable hd hnot', position_withCounter hk]
    exact origin_zero.position d

theorem nodup_records (h : Proper (a :: rest)) (hlen : values.length ≤ maxAxisSize * rest.count) :
    ((values.zipIdx.map (record k (a :: rest))).map fun r => r.id).Nodup := by
  have hfits : ∀ x ∈ values.zipIdx, x.2 / rest.count < maxAxisSize := fun x hx =>
    Nat.div_lt_of_lt_mul (Nat.mul_comm _ _ ▸ Nat.lt_of_lt_of_le (List.mem_zipIdx' hx).1 hlen)
  have hindices : (values.zipIdx.map Prod.snd).Nodup := by
    rw [List.zipIdx_map_snd]
    exact List.nodup_range'
  rw [List.map_map]
  refine List.Nodup.map_on (fun x hx y hy heq => ?_) (List.Nodup.of_map _ hindices)
  have hpositions := place_injective (packable_positions h (hfits x hx)) (packable_positions h (hfits y hy))
    ((map_fst_positions a rest x.2).trans (map_fst_positions a rest y.2).symm) heq
  exact List.inj_on_of_nodup_map hindices hx hy (positions_injective a rest hpositions)

/-- Values are laid out if the slot of the first axis is large enough for their number. Each value then has a record of
    its own, in order, whose positions are the digits of its number: along the first axis the whole quotient by the
    sizes of the others, along the others the remainders, and 0 elsewhere. -/
theorem layOut_enumerates (h : Proper (a :: rest)) (hk : k ≤ maxCounterId) (values : List α) :
    ((∃ records, Sample.layOut k (a :: rest) values = .ok records) ↔
      values.length ≤ maxAxisSize * (rest.map Axis.size).prod) ∧
    ∀ records, Sample.layOut k (a :: rest) values = .ok records →
      records.map (fun r => r.value) = values ∧ (records.map fun r => r.id).Nodup ∧
      ∀ i r, records[i]? = some r → r.id.counter = k ∧
        r.id.position a.dimension = i / (rest.map Axis.size).prod ∧
        (∀ before b after, rest = before ++ b :: after →
          r.id.position b.dimension = i / (after.map Axis.size).prod % b.size) ∧
        ∀ d, d ≠ .none → d ∉ (a :: rest).map Axis.dimension → r.id.position d = 0 := by
  have hiff : (∃ records, Sample.layOut k (a :: rest) values = .ok records) ↔ values.length ≤ maxAxisSize * rest.count := by
    refine ⟨fun ⟨records, hok⟩ => ?_, fun hlen => ⟨_, layOut_eq_ok h hk hlen⟩⟩
    by_contra hlen
    rw [layOut_eq_error h hk (Nat.lt_of_not_le hlen)] at hok
    cases hok
  refine ⟨h.tail.count_eq ▸ hiff, fun records hok => ?_⟩
  have hlen := hiff.mp ⟨records, hok⟩
  rw [layOut_eq_ok h hk hlen] at hok
  cases hok
  refine ⟨?_, nodup_records h hlen, fun i r hr => ?_⟩
  · rw [List.map_map]
    exact List.zipIdx_map_fst 0 values
  · rw [List.getElem?_map, List.getElem?_zipIdx, Nat.zero_add] at hr
    obtain ⟨x, hx, rfl⟩ := Option.map_eq_some_iff.mp hr
    obtain ⟨v, hv, rfl⟩ := Option.map_eq_some_iff.mp hx
    have hi : i < maxAxisSize * rest.count := Nat.lt_of_lt_of_le (List.getElem?_eq_some_iff.mp hv).1 hlen
    exact record_position h hk (Nat.div_lt_of_lt_mul (Nat.mul_comm _ _ ▸ hi))

/-- The fifth of five values on a layout of two times two, beyond its last cell. -/
theorem layOut_enumerates_spilled :
    Proper [⟨.xcc, 2⟩, ⟨.aid, 2⟩] ∧ 7 ≤ maxCounterId ∧
    (¬ ∃ records, Sample.layOut 7 [⟨.xcc, 2⟩, ⟨.aid, 2⟩] (List.replicate 129 ()) = .ok records) ∧
    ∃ records, Sample.layOut 7 [⟨.xcc, 2⟩, ⟨.aid, 2⟩] [10, 20, 30, 40, 50] = .ok records ∧
      (records.map fun r => r.id).Nodup ∧
      ∃ r, records[4]? = some r ∧ r.value = 50 ∧ r.id.counter = 7 ∧ r.id.position .xcc = 2 ∧ r.id.position .aid = 0 ∧
        r.id.position .inst = 0 := by
  have hproper : Proper [⟨.xcc, 2⟩, ⟨.aid, 2⟩] := ⟨by decide, by decide⟩
  have hcounter : 7 ≤ maxCounterId := by decide
  obtain ⟨hiff, hrecords⟩ := layOut_enumerates hproper hcounter [10, 20, 30, 40, 50]
  obtain ⟨records, hok⟩ := hiff.mpr (by decide)
  obtain ⟨hvalues, hnodup, hpositions⟩ := hrecords records hok
  have hlength : 4 < records.length := by rw [← List.length_map (fun r => r.value), hvalues]; decide
  obtain ⟨hk, hfirst, hother, hnone⟩ := hpositions 4 records[4] (List.getElem?_eq_getElem hlength)
  refine ⟨hproper, hcounter, fun hmany => ?_, records, hok, hnodup, records[4], List.getElem?_eq_getElem hlength, ?_,
    hk, hfirst, hother [] ⟨.aid, 2⟩ [] rfl, hnone .inst (by decide) (by decide)⟩
  · have hle := (layOut_enumerates hproper hcounter (List.replicate 129 ())).1.mp hmany
    rw [List.length_replicate] at hle
    exact absurd hle (by decide)
  · have hvalue : (records.map fun r => r.value)[4]? = some 50 := by rw [hvalues]; rfl
    rw [List.getElem?_map, List.getElem?_eq_getElem hlength] at hvalue
    exact Option.some.inj hvalue

end Layout

end PerfCounters
