import IotEdge.Lib.Wildcard

/-!
# Topic filters

`QMqttTopicFilter` is the text of a filter, and `QMqttTopicName` that of a topic.  `isValid`
and `match` work on the characters: they look for the wildcards and their neighbours, and
split the texts only where they have to.

What they are about are levels.  `WellFormed` says where a filter may have wildcards, and
`pattern` reads the filter as a pattern.  `topic_filter_match_iff` is what `match` comes to:
it holds of a topic if and only if both are valid, the levels of the topic fit the pattern,
and the filter does not start with a wildcard where `$` protects the topic from it.

A `QString` is a list of UTF-16 code units here.  `isValid` keeps its length in an `int`, so the
theorem is about `CountedString`, the texts that an `int` can count.
-/

namespace IotEdge.Monitor

open Wildcard

/-- A `QString`. -/
abbrev QString := List UInt16

/-- A `QString` whose length is an `int`. -/
def CountedString := { text : QString // text.length < 2 ^ 31 }

namespace QString

/-- The character between two levels. -/
def slash : UInt16 := 0x2f
/-- The wildcard for the rest. -/
def hash : UInt16 := 0x23
/-- The wildcard for one level. -/
def plus : UInt16 := 0x2b
def dollar : UInt16 := 0x24

/-- `$share`. -/
def share : QString := [0x24, 0x73, 0x68, 0x61, 0x72, 0x65]

/-- The levels of a topic or of a filter. -/
def levels (text : QString) : List QString := text.splitOn slash

theorem levels_of_not_mem {text : QString} (h : slash ∉ text) : levels text = [text] :=
  List.splitOn_eq_singleton h

theorem levels_append (text rest : QString) :
    levels (text ++ slash :: rest) = levels text ++ levels rest :=
  List.splitOn_append_cons_self ..

theorem levels_inj {text text' : QString} : levels text = levels text' ↔ text = text' :=
  Wildcard.splitOn_inj

theorem mem_iff_exists_level {text : QString} {c : UInt16} (hc : c ≠ slash) :
    c ∈ text ↔ ∃ level ∈ levels text, c ∈ level := Wildcard.mem_iff_exists_mem_splitOn hc

end QString

open QString

/-! ## What the code does -/

/-- `QMqttTopicName::isValid`. -/
def topicNameIsValid (name : QString) : Bool :=
  0 < name.length ∧ name.length < 65536 ∧ hash ∉ name ∧ plus ∉ name ∧ 0 ∉ name

/-- The `#` of `isValid`: the first one has to be the last character, behind a `/`. -/
def multiLevelIsValid (filter : QString) : Bool :=
  match filter.idxOf? hash with
  | none => true
  | some multiLevelPosition =>
      multiLevelPosition = filter.length - 1 ∧ filter[filter.length - 2]? = some slash

/-- The loop of `isValid` over each `+`: its neighbours have to be `/`. -/
def singleLevelIsValid (filter : QString) : Bool :=
  (List.range filter.length).all fun singleLevelPosition =>
    filter[singleLevelPosition]? = some plus →
      (singleLevelPosition ≠ 0 → filter[singleLevelPosition - 1]? = some slash) ∧
      (singleLevelPosition < filter.length - 1 →
        filter[singleLevelPosition + 1]? = some slash)

/-- The end of `isValid`: the first `/` behind `$share/`. -/
def shareIsValid (filter : QString) : Bool :=
  if (share ++ [slash]).isPrefixOf filter then
    match (filter.drop 7).idxOf? slash with
    | none => false
    | some index => index ≠ 0
  else true

/-- `QMqttTopicFilter::isValid`. -/
def topicFilterIsValid (filter : QString) : Bool :=
  if filter.length = 0 ∨ 65535 < filter.length ∨ 0 ∈ filter then false
  else if filter.length = 1 then true
  else multiLevelIsValid filter && singleLevelIsValid filter && shareIsValid filter

/-- The loops of `match`: a level of the filter is `+` or that of the topic. -/
def levelsMatch (filterLevels topicLevels : List QString) : Bool :=
  (filterLevels.zip topicLevels).all fun (level, topicLevel) =>
    level = [plus] ∨ level = topicLevel

/-- `QMqttTopicFilter::match`, with `WildcardsDontMatchDollarTopicMatchOption` as a flag. -/
def topicFilterMatch (filter topic : QString) (wildcardsDontMatchDollarTopic : Bool) : Bool :=
  if !topicNameIsValid topic || !topicFilterIsValid filter then false
  else if topic = filter then true
  else if wildcardsDontMatchDollarTopic ∧ topic.head? = some dollar ∧
      (filter.head? = some plus ∨ filter = [hash] ∨ filter = [slash, hash]) then false
  else if filter.getLast? = some hash then
    let root := filter.dropLast
    if root = [] then true
    else
      let root := if root.getLast? = some slash then root.dropLast else root
      if (levels topic).length < (levels root).length then false
      else levelsMatch (levels root) (levels topic)
  else if plus ∈ filter then
    if (levels filter).length ≠ (levels topic).length then false
    else levelsMatch (levels filter) (levels topic)
  else false

/-! ## What it means -/

/-- A filter as the standard has it: a level with a wildcard is that wildcard, `#` only as the
last level, and a shared subscription has a name and a filter. -/
structure WellFormed (filter : QString) : Prop where
  length_pos : 0 < filter.length
  length_le : filter.length ≤ 65535
  zero_not_mem : 0 ∉ filter
  multi : ∀ before level after, levels filter = before ++ level :: after → hash ∈ level →
    level = [hash] ∧ after = []
  single : ∀ level ∈ levels filter, plus ∈ level → level = [plus]
  shared : ∀ name after, levels filter = share :: name :: after → name ≠ [] ∧ after ≠ []

/-- A level of a filter. -/
def patternLevel (level : QString) : Level QString :=
  if level = [hash] then .rest else if level = [plus] then .one else .exactly level

/-- What a filter asks of the levels of a topic. -/
def pattern (filter : QString) : List (Level QString) := (levels filter).map patternLevel

/-! ## Valid filters -/

theorem idxOf?_append_cons {c : UInt16} {u v : QString} (hc : c ∉ u) :
    (u ++ c :: v).idxOf? c = some u.length := by
  induction u with
  | nil => rw [List.nil_append, List.idxOf?_cons, if_pos (beq_self_eq_true c), List.length_nil]
  | cons d u ih =>
      obtain ⟨hd, hc⟩ := not_or.mp (List.mem_cons.not.mp hc)
      rw [List.cons_append, List.idxOf?_cons, if_neg (by simpa using Ne.symm hd), ih hc,
        Option.map_some, List.length_cons]

/-- The last but one character. -/
theorem getElem?_length_sub_two {u : QString} (hu : u ≠ []) {c d : UInt16} :
    (u ++ [c])[(u ++ [c]).length - 2]? = some d ↔ ∃ q, u = q ++ [d] := by
  obtain ⟨q, e, rfl⟩ := (List.eq_nil_or_concat' u).resolve_left hu
  have hposition : (q ++ [e] ++ [c]).length - 2 = q.length := by
    rw [List.length_append, List.length_append, List.length_singleton, List.length_singleton]
    omega
  rw [hposition, List.append_assoc, List.getElem?_append_right (Nat.le_refl _), Nat.sub_self]
  constructor
  · intro h
    cases h
    exact ⟨q, rfl⟩
  · rintro ⟨q', heq⟩
    obtain ⟨-, hlast⟩ := List.append_inj' heq rfl
    cases hlast
    rfl

/-- The first `#` is the last character, behind a `/`. -/
theorem multiLevelIsValid_iff_append {filter : QString} (hlength : filter.length ≠ 1) :
    multiLevelIsValid filter = true ↔
      hash ∉ filter ∨ ∃ q, filter = q ++ [slash, hash] ∧ hash ∉ q := by
  by_cases hmem : hash ∈ filter
  · obtain ⟨u, v, rfl, hu⟩ := List.eq_append_cons_of_mem hmem
    rw [multiLevelIsValid, idxOf?_append_cons hu]
    simp only [decide_eq_true_eq]
    constructor
    · rintro ⟨hlast, hslash⟩
      obtain rfl : v = [] := by
        rw [List.length_append, List.length_cons] at hlast
        exact List.eq_nil_of_length_eq_zero (by omega)
      have hne : u ≠ [] := by
        rintro rfl
        exact hlength rfl
      obtain ⟨q, rfl⟩ := (getElem?_length_sub_two hne).mp hslash
      exact .inr ⟨q, List.append_assoc _ _ _, fun hq => hu (List.mem_append_left _ hq)⟩
    · rintro (hnot | ⟨q, heq, hq⟩)
      · exact absurd hmem hnot
      · have hq' : hash ∉ q ++ [slash] := by
          intro h
          rcases List.mem_append.mp h with h | h
          · exact hq h
          · cases List.mem_singleton.mp h
        rw [show q ++ [slash, hash] = (q ++ [slash]) ++ hash :: [] by simp] at heq
        have hlengths : u.length = (q ++ [slash]).length := by
          rw [← Option.some.injEq, ← idxOf?_append_cons hu, heq, idxOf?_append_cons hq']
        obtain ⟨rfl, hv⟩ := List.append_inj heq hlengths
        obtain rfl : v = [] := (List.cons.inj hv).2
        refine ⟨by simp, (getElem?_length_sub_two (by simp)).mpr ⟨q, rfl⟩⟩
  · rw [multiLevelIsValid, List.idxOf?_eq_none_iff.mpr hmem]
    exact ⟨fun _ => .inl hmem, fun _ => rfl⟩

theorem multiLevelIsValid_iff {filter : QString} (hlength : filter.length ≠ 1) :
    multiLevelIsValid filter = true ↔ ∀ before level after,
      levels filter = before ++ level :: after → hash ∈ level → level = [hash] ∧ after = [] := by
  have hne : hash ≠ slash := by decide
  rw [multiLevelIsValid_iff_append hlength]
  constructor
  · rintro (hnot | ⟨q, rfl, hq⟩) before level after heq hmem
    · refine absurd ((mem_iff_exists_level hne).mpr ⟨level, ?_, hmem⟩) hnot
      rw [heq]
      exact List.mem_append_right _ List.mem_cons_self
    · rw [levels_append, @levels_of_not_mem [hash] (by decide)] at heq
      rcases List.eq_nil_or_concat' after with rfl | ⟨after, last, rfl⟩
      · obtain ⟨-, hlevel⟩ := List.append_inj' heq rfl
        exact ⟨(List.cons.inj hlevel).1.symm, rfl⟩
      · rw [← List.cons_append, ← List.append_assoc] at heq
        obtain ⟨hlevels, -⟩ := List.append_inj' heq rfl
        refine absurd ((mem_iff_exists_level hne).mpr ⟨level, ?_, hmem⟩) hq
        rw [hlevels]
        exact List.mem_append_right _ List.mem_cons_self
  · intro h
    obtain ⟨u, last, rfl, hlast, rfl | ⟨q, rfl⟩⟩ := exists_last_part (s := slash) filter
    · refine .inl fun hmem => hlength ?_
      rw [(h [] last [] (levels_of_not_mem hlast) hmem).1]
      rfl
    · have hlevels : levels (q ++ [slash] ++ last) = levels q ++ last :: [] := by
        rw [List.append_assoc, List.singleton_append, levels_append, levels_of_not_mem hlast]
      have hq : hash ∉ q := by
        intro hmem
        obtain ⟨level, hlevel, hmem⟩ := (mem_iff_exists_level hne).mp hmem
        obtain ⟨before, after, heq⟩ := List.append_of_mem hlevel
        have hsplit : levels (q ++ [slash] ++ last) = before ++ level :: (after ++ [last]) := by
          rw [hlevels, heq, List.append_assoc, List.cons_append]
        exact List.cons_ne_nil _ _ (List.append_eq_nil_iff.mp (h _ _ _ hsplit hmem).2).2
      by_cases hmem : hash ∈ last
      · obtain ⟨rfl, -⟩ := h _ _ _ hlevels hmem
        exact .inr ⟨q, List.append_assoc _ _ _, hq⟩
      · refine .inl fun hin => ?_
        rcases List.mem_append.mp hin with hin | hin
        · rcases List.mem_append.mp hin with hin | hin
          · exact hq hin
          · exact hne (List.mem_singleton.mp hin)
        · exact hmem hin

/-- Each `+` has a `/` or an end on either side. -/
theorem singleLevelIsValid_iff_append {filter : QString} : singleLevelIsValid filter = true ↔
    ∀ u v, filter = u ++ plus :: v →
      (u = [] ∨ ∃ u', u = u' ++ [slash]) ∧ (v = [] ∨ ∃ v', v = slash :: v') := by
  rw [singleLevelIsValid, List.all_eq_true]
  simp only [List.mem_range, decide_eq_true_eq]
  constructor
  · rintro h u v rfl
    have hposition : u.length < (u ++ plus :: v).length := by simp
    obtain ⟨hbefore, hafter⟩ := h u.length hposition (by simp)
    constructor
    · rcases List.eq_nil_or_concat' u with rfl | ⟨u, c, rfl⟩
      · exact .inl rfl
      · have hc := hbefore (by simp)
        rw [List.length_append, List.length_singleton, Nat.add_sub_cancel, List.append_assoc,
          List.getElem?_append_right (Nat.le_refl _), Nat.sub_self] at hc
        cases hc
        exact .inr ⟨u, rfl⟩
    · rcases v with _ | ⟨c, v⟩
      · exact .inl rfl
      · have hc := hafter (by simp)
        rw [List.getElem?_append_right (Nat.le_succ _), Nat.succ_sub (Nat.le_refl _),
          Nat.sub_self] at hc
        cases hc
        exact .inr ⟨v, rfl⟩
  · intro h i hi hplus
    obtain ⟨hbefore, hafter⟩ := h (filter.take i) (filter.drop (i + 1)) <| by
      rw [List.getElem?_eq_getElem hi, Option.some.injEq] at hplus
      rw [← hplus, List.getElem_cons_drop, List.take_append_drop]
    constructor
    · intro hzero
      rcases hbefore with hnil | ⟨u', heq⟩
      · rw [List.take_eq_nil_iff] at hnil
        rcases hnil with rfl | rfl
        · exact absurd rfl hzero
        · cases hi
      · rw [← List.getElem?_take_of_lt (Nat.sub_one_lt hzero), heq]
        have hlength := congrArg List.length heq
        rw [List.length_take, List.length_append, List.length_singleton,
          Nat.min_eq_left hi.le] at hlength
        rw [hlength, Nat.add_sub_cancel, List.getElem?_append_right (Nat.le_refl _), Nat.sub_self]
        rfl
    · intro hlast
      rcases hafter with hnil | ⟨v', heq⟩
      · rw [List.drop_eq_nil_iff] at hnil
        omega
      · rw [← Nat.add_zero (i + 1), ← List.getElem?_drop, heq]
        rfl

theorem singleLevelIsValid_iff {filter : QString} :
    singleLevelIsValid filter = true ↔ ∀ level ∈ levels filter, plus ∈ level → level = [plus] := by
  rw [singleLevelIsValid_iff_append]
  constructor
  · intro h level hlevel hmem
    obtain ⟨hnot, u, v, rfl, -, -⟩ := mem_splitOn_iff.mp hlevel
    obtain ⟨a, b, rfl⟩ := List.append_of_mem hmem
    obtain ⟨hbefore, hafter⟩ := h (u ++ a) (b ++ v) (by simp)
    have ha : a = [] := by
      rcases List.eq_nil_or_concat' a with rfl | ⟨a, c, rfl⟩
      · rfl
      · rcases hbefore with hnil | ⟨u', heq⟩
        · simp at hnil
        · rw [← List.append_assoc] at heq
          obtain ⟨-, hc⟩ := List.append_inj' heq rfl
          cases hc
          simp at hnot
    have hb : b = [] := by
      rcases b with _ | ⟨c, b⟩
      · rfl
      · rcases hafter with hnil | ⟨v', heq⟩
        · cases hnil
        · cases heq
          simp at hnot
    rw [ha, hb, List.nil_append]
  · rintro h u v rfl
    obtain ⟨u', a, b, v', rfl, rfl, hu, hv, hlevel⟩ :=
      exists_mem_splitOn (s := slash) (u := u) (v := v) (by decide : plus ≠ slash)
    have heq := h _ hlevel (List.mem_append_right _ List.mem_cons_self)
    have hlength := congrArg List.length heq
    rw [List.length_append, List.length_cons, List.length_singleton] at hlength
    obtain rfl : a = [] := List.eq_nil_of_length_eq_zero (by omega)
    obtain rfl : b = [] := List.eq_nil_of_length_eq_zero (by omega)
    rw [List.append_nil, List.nil_append]
    exact ⟨hu, hv⟩

theorem shareIsValid_iff {filter : QString} : shareIsValid filter = true ↔
    ∀ name after, levels filter = share :: name :: after → name ≠ [] ∧ after ≠ [] := by
  have hshare : slash ∉ share := by decide
  rw [shareIsValid]
  split
  next hprefix =>
    obtain ⟨rest, rfl⟩ := List.isPrefixOf_iff_prefix.mp hprefix
    have hrest : (share ++ [slash] ++ rest).drop 7 = rest := rfl
    have hlevels : levels (share ++ [slash] ++ rest) = share :: levels rest := by
      rw [List.append_assoc, List.singleton_append, levels_append, levels_of_not_mem hshare,
        List.singleton_append]
    rw [hrest, hlevels]
    obtain ⟨name, v, rfl, hname, rfl | ⟨v', rfl⟩⟩ := exists_first_part (s := slash) rest
    · rw [List.append_nil, levels_of_not_mem hname, List.idxOf?_eq_none_iff.mpr hname]
      constructor
      · intro h
        cases h
      · intro h
        exact absurd rfl (h _ _ rfl).2
    · rw [levels_append, levels_of_not_mem hname, idxOf?_append_cons hname]
      simp only [decide_eq_true_eq]
      constructor
      · intro hne name' after heq
        cases heq
        exact ⟨fun hnil => hne (by rw [hnil, List.length_nil]), List.splitOn_ne_nil _ _⟩
      · intro h hzero
        exact (h _ _ rfl).1 (List.eq_nil_of_length_eq_zero hzero)
  next hprefix =>
    refine iff_of_true rfl fun name after heq => absurd ?_ hprefix
    obtain ⟨b, v, rfl, hb, rfl | ⟨v', rfl⟩⟩ := exists_first_part (s := slash) filter
    · rw [List.append_nil, levels_of_not_mem hb] at heq
      cases heq
    · rw [levels_append, levels_of_not_mem hb] at heq
      obtain ⟨rfl, -⟩ := List.cons.inj heq
      exact List.isPrefixOf_iff_prefix.mpr ⟨v', by simp⟩

theorem wellFormed_singleton {c : UInt16} (hc : 0 ≠ c) : WellFormed [c] := by
  have hlevel : ∀ {d}, d ≠ slash → ∀ level ∈ levels [c], d ∈ level → levels [c] = [[d]] := by
    intro d hd level hlevel hmem
    obtain rfl := List.mem_singleton.mp ((mem_iff_exists_level hd).mpr ⟨level, hlevel, hmem⟩)
    exact levels_of_not_mem (List.mem_singleton.not.mpr hd.symm)
  refine ⟨Nat.zero_lt_one, Nat.one_le_ofNat, List.mem_singleton.not.mpr hc, ?_, ?_, ?_⟩
  · intro before level after heq hmem
    have hin : level ∈ levels [c] := by
      rw [heq]
      exact List.mem_append_right _ List.mem_cons_self
    rw [hlevel (by decide) level hin hmem] at heq
    rcases List.append_eq_singleton_iff.mp heq.symm with ⟨-, hcons⟩ | ⟨-, hcons⟩
    · obtain ⟨rfl, rfl⟩ := List.cons.inj hcons
      exact ⟨rfl, rfl⟩
    · cases hcons
  · intro level hin hmem
    rw [hlevel (by decide) level hin hmem] at hin
    exact List.mem_singleton.mp hin
  · intro name after heq
    have hin : share ∈ levels [c] := by
      rw [heq]
      exact List.mem_cons_self
    rw [hlevel (by decide) share hin (by decide : dollar ∈ share)] at hin
    exact absurd (List.mem_singleton.mp hin) (by decide)

theorem topicFilterIsValid_iff {filter : QString} :
    topicFilterIsValid filter = true ↔ WellFormed filter := by
  rw [topicFilterIsValid]
  split
  next hbad =>
    refine iff_of_false (by decide) fun h => ?_
    rcases hbad with hzero | hlong | hnul
    · exact Nat.lt_irrefl 0 (hzero ▸ h.length_pos)
    · exact Nat.lt_irrefl _ (hlong.trans_le h.length_le)
    · exact h.zero_not_mem hnul
  next hgood =>
    obtain ⟨hpos, hlength, hnul⟩ : filter.length ≠ 0 ∧ filter.length ≤ 65535 ∧ 0 ∉ filter := by
      simpa only [not_or, Nat.not_lt] using hgood
    split
    next hone =>
      obtain ⟨c, rfl⟩ := List.length_eq_one_iff.mp hone
      exact iff_of_true rfl (wellFormed_singleton (List.mem_singleton.not.mp hnul))
    next hone =>
      rw [Bool.and_eq_true, Bool.and_eq_true, multiLevelIsValid_iff hone, singleLevelIsValid_iff,
        shareIsValid_iff]
      constructor
      · rintro ⟨⟨hmulti, hsingle⟩, hshared⟩
        exact ⟨Nat.pos_of_ne_zero hpos, hlength, hnul, hmulti, hsingle, hshared⟩
      · intro h
        exact ⟨⟨h.multi, h.single⟩, h.shared⟩

/-- A valid filter has no `#`, or one at the end. -/
theorem WellFormed.hash_cases {filter : QString} (h : WellFormed filter) :
    hash ∉ filter ∨ filter = [hash] ∨ ∃ q, filter = q ++ [slash, hash] ∧ hash ∉ q := by
  rcases eq_or_ne filter.length 1 with hone | hone
  · obtain ⟨c, rfl⟩ := List.length_eq_one_iff.mp hone
    rcases eq_or_ne c hash with rfl | hc
    · exact .inr (.inl rfl)
    · exact .inl (List.mem_singleton.not.mpr hc.symm)
  · rcases (multiLevelIsValid_iff_append hone).mp ((multiLevelIsValid_iff hone).mpr h.multi) with
      hnot | hend
    · exact .inl hnot
    · exact .inr (.inr hend)

/-! ## What matches -/

section Matching

variable {filterLevels : List QString} (hfilter : ∀ level ∈ filterLevels, hash ∉ level)
include hfilter

theorem patternLevel_of_mem {level : QString} (h : level ∈ filterLevels) :
    patternLevel level = if level = [plus] then .one else .exactly level := by
  rw [patternLevel, if_neg]
  rintro rfl
  exact hfilter _ h (List.mem_singleton_self _)

theorem ne_rest_of_mem : ∀ l ∈ filterLevels.map patternLevel, l ≠ .rest := by
  intro l hl
  obtain ⟨level, hmem, rfl⟩ := List.mem_map.mp hl
  rw [patternLevel_of_mem hfilter hmem]
  split <;> rintro ⟨⟩

theorem levelsMatch_iff (topicLevels : List QString) : levelsMatch filterLevels topicLevels = true ↔
    ∀ x ∈ (filterLevels.map patternLevel).zip topicLevels, x.1.Fits x.2 := by
  rw [levelsMatch, List.all_eq_true, List.zip_map_left, List.forall_mem_map]
  refine forall₂_congr fun x hx => ?_
  rw [Prod.map_fst, Prod.map_snd, patternLevel_of_mem hfilter (List.of_mem_zip hx).1,
    decide_eq_true_eq]
  split
  next hplus => exact iff_of_true (.inl hplus) trivial
  next hplus => exact ⟨fun h => (h.resolve_left hplus).symm, fun h => .inr h.symm⟩

end Matching

theorem not_mem_level {text : QString} {c : UInt16} (hc : c ≠ slash) (h : c ∉ text) :
    ∀ level ∈ levels text, c ∉ level :=
  fun level hlevel hmem => h ((mem_iff_exists_level hc).mpr ⟨level, hlevel, hmem⟩)

/-- A filter without `#`. -/
theorem matches_iff_of_not_mem {filter : QString} (h : hash ∉ filter) (topic : QString) :
    Matches (pattern filter) (levels topic) ↔
      (levels filter).length = (levels topic).length ∧
        levelsMatch (levels filter) (levels topic) = true := by
  have hlevels := not_mem_level (by decide) h
  rw [pattern, matches_iff_zip (ne_rest_of_mem hlevels), List.length_map, levelsMatch_iff hlevels]

/-- A filter without wildcards. -/
theorem matches_iff_eq {filter : QString} (h : hash ∉ filter) (hplus : plus ∉ filter)
    (topic : QString) : Matches (pattern filter) (levels topic) ↔ topic = filter := by
  have hpattern : pattern filter = (levels filter).map .exactly := by
    refine List.map_congr_left fun level hlevel => ?_
    rw [patternLevel_of_mem (not_mem_level (by decide) h) hlevel, if_neg]
    rintro rfl
    exact not_mem_level (by decide) hplus _ hlevel (List.mem_singleton_self _)
  rw [hpattern, matches_map_exactly_iff, levels_inj]

/-- A filter with `/#` at its end. -/
theorem matches_iff_of_rest {q : QString} (h : hash ∉ q) (topic : QString) :
    Matches (pattern (q ++ [slash, hash])) (levels topic) ↔
      (levels q).length ≤ (levels topic).length ∧
        levelsMatch (levels q) (levels topic) = true := by
  have hlevels := not_mem_level (by decide) h
  have hpattern : pattern (q ++ [slash, hash]) = (levels q).map patternLevel ++ [.rest] := by
    rw [pattern, levels_append, @levels_of_not_mem [hash] (by decide), List.map_append]
    rfl
  rw [hpattern, matches_rest_iff (ne_rest_of_mem hlevels), List.length_map,
    levelsMatch_iff hlevels]

theorem head?_ne_dollar_of_levelsMatch {topic : QString}
    (h : levelsMatch (levels []) (levels topic) = true) : topic.head? ≠ some dollar := by
  rcases topic with _ | ⟨c, topic⟩
  · rintro ⟨⟩
  · rintro ⟨⟩
    obtain ⟨level, after, hlevels⟩ := List.exists_cons_of_ne_nil (List.splitOn_ne_nil slash topic)
    rw [levels, levels, List.splitOn_cons_eq_if_modifyHead, if_neg (by decide), hlevels] at h
    cases h

theorem topicFilterIsValid_of_match {filter topic : QString} {flag : Bool}
    (h : topicFilterMatch filter topic flag = true) : topicFilterIsValid filter = true := by
  rw [topicFilterMatch] at h
  split at h
  next => cases h
  next hvalid =>
    rw [Bool.or_eq_true, not_or, Bool.not_eq_true', Bool.not_eq_true', Bool.not_eq_false,
      Bool.not_eq_false] at hvalid
    exact hvalid.2

section

variable {filter topic : QString} {flag : Bool}

/-- A filter without `#`. -/
theorem topicFilterMatch_iff_of_not_mem
    (hvalid : ¬ (!topicNameIsValid topic || !topicFilterIsValid filter) = true)
    (hhash : hash ∉ topic) (hplus : plus ∉ topic) (hnot : hash ∉ filter) :
    topicFilterMatch filter topic flag = true ↔ Matches (pattern filter) (levels topic) ∧
      (flag = true → topic.head? = some dollar →
        filter.head? ≠ some plus ∧ filter.head? ≠ some hash) := by
  have hlast : filter.getLast? ≠ some hash := fun h => hnot (List.mem_of_getLast? h)
  have hhead : filter.head? ≠ some hash := fun h => hnot (List.mem_of_head? h)
  rw [topicFilterMatch, if_neg hvalid]
  split
  next heq =>
    subst heq
    refine iff_of_true rfl ⟨(matches_iff_eq hhash hplus _).mpr rfl, fun _ hdollar => ?_⟩
    rw [hdollar]
    exact ⟨by decide, by decide⟩
  next hne =>
    split
    next hguard =>
      obtain ⟨hflag, hdollar, hwildcard⟩ := hguard
      refine iff_of_false (by decide) fun h => ?_
      rcases hwildcard with hfirst | rfl | rfl
      · exact (h.2 hflag hdollar).1 hfirst
      · exact hhead rfl
      · exact hlast rfl
    next hguard =>
      have hallowed : flag = true → topic.head? = some dollar →
          filter.head? ≠ some plus ∧ filter.head? ≠ some hash :=
        fun hflag hdollar => ⟨fun h => hguard ⟨hflag, hdollar, .inl h⟩, hhead⟩
      rw [and_iff_left hallowed]
      split
      next hmem =>
        rw [matches_iff_of_not_mem hnot]
        split
        next hlength => exact iff_of_false (by decide) fun h => hlength h.1
        next hlength => rw [and_iff_right (not_not.mp hlength)]
      next hmem =>
        rw [matches_iff_eq hnot hmem]
        exact iff_of_false (by decide) hne

/-- The filter for every topic. -/
theorem topicFilterMatch_hash_iff
    (hvalid : ¬ (!topicNameIsValid topic || !topicFilterIsValid [hash]) = true)
    (hhash : hash ∉ topic) :
    topicFilterMatch [hash] topic flag = true ↔ Matches (pattern [hash]) (levels topic) ∧
      (flag = true → topic.head? = some dollar →
        [hash].head? ≠ some plus ∧ [hash].head? ≠ some hash) := by
  have hne : topic ≠ [hash] := fun h => hhash (h ▸ List.mem_singleton_self _)
  rw [topicFilterMatch, if_neg hvalid, if_neg hne]
  split
  next hguard => exact iff_of_false (by decide) fun h => (h.2 hguard.1 hguard.2.1).2 rfl
  next hguard =>
    refine iff_of_true rfl ⟨.rest _, fun hflag hdollar => ?_⟩
    exact absurd ⟨hflag, hdollar, .inr (.inl rfl)⟩ hguard

/-- A filter with `#` behind other levels. -/
theorem topicFilterMatch_rest_iff {q : QString}
    (hvalid : ¬ (!topicNameIsValid topic || !topicFilterIsValid (q ++ [slash, hash])) = true)
    (hhash : hash ∉ topic) (hq : hash ∉ q) :
    topicFilterMatch (q ++ [slash, hash]) topic flag = true ↔
      Matches (pattern (q ++ [slash, hash])) (levels topic) ∧
      (flag = true → topic.head? = some dollar →
        (q ++ [slash, hash]).head? ≠ some plus ∧ (q ++ [slash, hash]).head? ≠ some hash) := by
  have hne : topic ≠ q ++ [slash, hash] := fun h => hhash (h ▸ by simp)
  have hhead : (q ++ [slash, hash]).head? ≠ some hash := by
    rcases q with _ | ⟨c, q⟩
    · decide
    · rintro ⟨⟩
      exact hq List.mem_cons_self
  rw [topicFilterMatch, if_neg hvalid, if_neg hne, matches_iff_of_rest hq]
  split
  next hguard =>
    obtain ⟨hflag, hdollar, hwildcard⟩ := hguard
    refine iff_of_false (by decide) fun h => ?_
    rcases hwildcard with hfirst | heq | heq
    · exact (h.2 hflag hdollar).1 hfirst
    · exact absurd (congrArg List.length heq) (by simp)
    · obtain rfl : q = [] := List.append_left_eq_self.mp heq
      exact head?_ne_dollar_of_levelsMatch h.1.2 hdollar
  next hguard =>
    have hallowed : flag = true → topic.head? = some dollar →
        (q ++ [slash, hash]).head? ≠ some plus ∧ (q ++ [slash, hash]).head? ≠ some hash :=
      fun hflag hdollar => ⟨fun h => hguard ⟨hflag, hdollar, .inl h⟩, hhead⟩
    have hroot : (q ++ [slash, hash]).dropLast = q ++ [slash] := by
      rw [List.dropLast_append_of_ne_nil (by decide)]
      rfl
    rw [and_iff_left hallowed, if_pos (by simp), hroot]
    simp only [List.append_eq_nil_iff, List.cons_ne_self, and_false, if_false,
      List.getLast?_concat, if_true, List.dropLast_concat]
    split
    next hlength => exact iff_of_false (by decide) fun h => hlength.not_ge h.1
    next hlength => rw [and_iff_right (Nat.not_lt.mp hlength)]

end

/-- The match of characters is one of levels. -/
theorem topicFilterMatch_iff (filter topic : QString) (wildcardsDontMatchDollarTopic : Bool) :
    topicFilterMatch filter topic wildcardsDontMatchDollarTopic = true ↔
      topicNameIsValid topic = true ∧ WellFormed filter ∧
        Matches (pattern filter) (levels topic) ∧
        (wildcardsDontMatchDollarTopic = true → topic.head? = some dollar →
          filter.head? ≠ some plus ∧ filter.head? ≠ some hash) := by
  by_cases hvalid : (!topicNameIsValid topic || !topicFilterIsValid filter) = true
  · rw [topicFilterMatch, if_pos hvalid]
    refine iff_of_false (by decide) ?_
    rintro ⟨htopic, hfilter, -⟩
    rw [htopic, topicFilterIsValid_iff.mpr hfilter] at hvalid
    cases hvalid
  · obtain ⟨htopic, hfilter⟩ : topicNameIsValid topic = true ∧ WellFormed filter := by
      rw [← topicFilterIsValid_iff]
      simpa using hvalid
    obtain ⟨-, -, hhash, hplus, -⟩ := of_decide_eq_true htopic
    rw [and_iff_right htopic, and_iff_right hfilter]
    rcases hfilter.hash_cases with hnot | rfl | ⟨q, rfl, hq⟩
    · exact topicFilterMatch_iff_of_not_mem hvalid hhash hplus hnot
    · exact topicFilterMatch_hash_iff hvalid hhash
    · exact topicFilterMatch_rest_iff hvalid hhash hq

/-- `QMqttTopicFilter::match` is the match of levels that the standard describes.  The flag is
about topics that start with `$`: a filter that starts with a wildcard does not match them. -/
theorem topic_filter_match_iff (filter topic : CountedString)
    (wildcardsDontMatchDollarTopic : Bool) :
    topicFilterMatch filter.1 topic.1 wildcardsDontMatchDollarTopic = true ↔
      topicNameIsValid topic.1 = true ∧ WellFormed filter.1 ∧
        Matches (pattern filter.1) (levels topic.1) ∧
        (wildcardsDontMatchDollarTopic = true → topic.1.head? = some dollar →
          filter.1.head? ≠ some plus ∧ filter.1.head? ≠ some hash) :=
  topicFilterMatch_iff filter.1 topic.1 wildcardsDontMatchDollarTopic

/-- Which filter matches which topic, as the tests of the library have it. -/
example : topicFilterMatch [0x61, slash, plus, slash, hash] [0x61, slash, 0x62] false = true := by
  decide

end IotEdge.Monitor
