import Emend.Match.Search
import Mathlib.Algebra.Order.Ring.Rat
import Mathlib.Data.List.MinMax
import Mathlib.Data.List.Nodup
import Mathlib.Data.Prod.Lex

/-!
# The choice among candidates

The choice goes over the candidates of a strategy once and keeps the better one of two, which is the
maximum for the order by confidence and then by position (`argmax_standing`). So what is chosen is
one of the candidates of the highest confidence, its leaders, and none of them stands before it; and
the tie that is reported counts them (`IsWinner`). Of candidates one after another no two stand at
one place, and this says which one is chosen and all that is said about it (`choose?_eq_some_iff`).

Whatever else is to be said about a choice is said about the leaders. They are all candidates if
these have the same confidence (`leaders_eq_self`), and those of some candidates if the others are
of lower confidence (`leaders_filter`).
-/

namespace Emend.Match

variable {content : Text} {c d : Candidate} {cs : List Candidate} {strategy : Strategy} {m : Match}

/-! ## The order of candidates -/

/-- What candidates are chosen by: a higher confidence is better, and of equal ones an earlier
position. -/
def standing (c : Candidate) : Rat ×ₗ Natᵒᵈ := toLex (c.confidence, OrderDual.toDual c.position)

/-- One candidate stands below another if its confidence is lower, or the same at a later
position. -/
theorem standing_lt_iff : standing c < standing d ↔
    c.confidence < d.confidence ∨ c.confidence = d.confidence ∧ d.position < c.position :=
  Prod.Lex.toLex_lt_toLex

/-- One candidate does not stand above another if its confidence is lower, or the same and its
position not earlier. -/
theorem standing_le_iff : standing c ≤ standing d ↔
    c.confidence < d.confidence ∨ c.confidence = d.confidence ∧ d.position ≤ c.position :=
  Prod.Lex.toLex_le_toLex

/-- The better one of two candidates stands higher, and of equals it is the first. -/
theorem better_eq_ite (c d : Candidate) :
    better c d = if standing c < standing d then d else c := by
  unfold better
  rw [← ite_or]
  exact if_congr standing_lt_iff.symm rfl rfl

/-- The choice among candidates is the one that stands highest. -/
theorem argmax_standing (c : Candidate) (cs : List Candidate) :
    (c :: cs).argmax standing = some (cs.foldl better c) := by
  induction cs using List.reverseRecOn with
  | nil => rfl
  | append_singleton cs d ih =>
    rw [← List.cons_append, List.argmax_concat, ih, List.foldl_append, List.foldl_cons,
      List.foldl_nil, better_eq_ite]
    exact (apply_ite some _ _ _).symm

/-! ## The leaders -/

/-- The candidates of the highest confidence. -/
def leaders (cs : List Candidate) : List Candidate :=
  cs.filter fun c => ∀ d ∈ cs, d.confidence ≤ c.confidence

theorem mem_leaders_iff : c ∈ leaders cs ↔ c ∈ cs ∧ ∀ d ∈ cs, d.confidence ≤ c.confidence := by
  rw [leaders, List.mem_filter, decide_eq_true_iff]

/-- What stands highest is a leader. -/
theorem foldl_better_mem_leaders (c : Candidate) (cs : List Candidate) :
    cs.foldl better c ∈ leaders (c :: cs) := by
  have hmax := argmax_standing c cs
  refine mem_leaders_iff.mpr ⟨List.argmax_mem hmax, fun d hd => ?_⟩
  rcases standing_le_iff.mp (List.le_of_mem_argmax hd hmax) with hlt | ⟨heq, -⟩
  · exact hlt.le
  · exact heq.le

/-- No leader stands before it. -/
theorem foldl_better_position_le (hd : d ∈ leaders (c :: cs)) :
    (cs.foldl better c).position ≤ d.position := by
  have hmax := argmax_standing c cs
  obtain ⟨hmem, hall⟩ := mem_leaders_iff.mp hd
  rcases standing_le_iff.mp (List.le_of_mem_argmax hmem hmax) with hlt | ⟨-, hposition⟩
  · exact absurd (hall _ (List.argmax_mem hmax)) hlt.not_ge
  · exact hposition

/-- As many candidates have the confidence of a leader as there are leaders. -/
theorem countP_eq_length_leaders (hc : c ∈ leaders cs) :
    cs.countP (fun d => d.confidence = c.confidence) = (leaders cs).length := by
  obtain ⟨hmem, hall⟩ := mem_leaders_iff.mp hc
  rw [List.countP_eq_length_filter, leaders]
  refine congrArg _ (List.filter_congr fun d hd => decide_eq_decide.mpr ⟨?_, ?_⟩)
  · exact fun heq e he => (hall e he).trans heq.ge
  · exact fun hhighest => (hall d hd).antisymm (hhighest c hmem)

/-- All candidates of the same confidence lead. -/
theorem leaders_eq_self {confidence : Rat} (h : ∀ c ∈ cs, c.confidence = confidence) :
    leaders cs = cs :=
  List.filter_eq_self.mpr fun c hc => decide_eq_true fun d hd => (h d hd).trans_le (h c hc).ge

/-- Candidates of lower confidence than those that are kept do not lead. -/
theorem leaders_filter {p : Candidate → Bool}
    (hp : ∀ c d : Candidate, c.confidence ≤ d.confidence → p c = true → p d = true)
    (hne : cs.filter p ≠ []) : leaders (cs.filter p) = leaders cs := by
  obtain ⟨kept, hkept⟩ := List.exists_mem_of_ne_nil _ hne
  obtain ⟨hmem, hpkept⟩ := List.mem_filter.mp hkept
  unfold leaders
  rw [List.filter_filter]
  refine List.filter_congr fun c _ => ?_
  rw [Bool.eq_iff_iff, Bool.and_eq_true, decide_eq_true_iff, decide_eq_true_iff]
  constructor
  · rintro ⟨hhighest, hc⟩ d hd
    by_cases hpd : p d = true
    · exact hhighest d (List.mem_filter.mpr ⟨hd, hpd⟩)
    · exact le_of_not_ge fun hle => hpd (hp c d hle hc)
  · exact fun hhighest => ⟨fun d hd => hhighest d (List.mem_filter.mp hd).1,
      hp kept c (hhighest kept hmem) hpkept⟩

/-! ## The winner -/

/-- The match that is to be made of candidates of a strategy. -/
structure IsWinner (content : Text) (strategy : Strategy) (cs : List Candidate) (m : Match) :
    Prop where
  /-- No candidate has a higher confidence. -/
  leads : m.candidate ∈ leaders cs
  /-- No other one of that confidence stands before it. -/
  earliest : ∀ c ∈ leaders cs, m.candidate.position ≤ c.position
  /-- There is a tie just if there are two of them or more, with their number and the line of the
  chosen one. -/
  ambiguity_eq : m.ambiguity =
    if 2 ≤ (leaders cs).length then
      some ⟨(leaders cs).length, m.candidate.position, .search strategy,
        1 + (content.take m.candidate.position).count '\n'⟩
    else none

/-- A tie is reported just if there is more than one leader. -/
theorem IsWinner.isSome_ambiguity_iff (h : IsWinner content strategy cs m) :
    m.ambiguity.isSome = true ↔ 1 < (leaders cs).length := by
  rw [h.ambiguity_eq]
  split_ifs with hmore
  · exact iff_of_true rfl hmore
  · exact iff_of_false nofun hmore

/-- There is a choice unless there are no candidates. -/
theorem choose?_eq_none_iff : choose? content strategy cs = none ↔ cs = [] := by
  cases cs with
  | nil => exact iff_of_true rfl rfl
  | cons c cs => exact iff_of_false nofun nofun

/-- There is a choice among candidates. -/
theorem exists_choose? (h : cs ≠ []) (content : Text) (strategy : Strategy) :
    ∃ m, choose? content strategy cs = some m :=
  Option.ne_none_iff_exists'.mp (mt choose?_eq_none_iff.mp h)

/-- What is chosen is a winner. -/
theorem isWinner_of_choose? (h : choose? content strategy cs = some m) :
    IsWinner content strategy cs m := by
  cases cs with
  | nil => cases h
  | cons c cs =>
    have hleads := foldl_better_mem_leaders c cs
    have hties := countP_eq_length_leaders hleads
    cases h
    refine ⟨hleads, fun d hd => foldl_better_position_le hd, ?_⟩
    dsimp only
    rw [hties, lineAt, Nat.add_comm 1]
    rfl

/-- What is chosen is one of the candidates. -/
theorem mem_of_choose? (h : choose? content strategy cs = some m) : m.candidate ∈ cs :=
  (mem_leaders_iff.mp (isWinner_of_choose? h).leads).1

/-! ## Candidates one after another -/

section Order

variable (hcs : cs.Pairwise (·.position < ·.position))
include hcs

/-- Of candidates one after another no two are at one place. -/
theorem eq_of_position_eq (hc : c ∈ cs) (hd : d ∈ cs) (h : c.position = d.position) : c = d :=
  List.inj_on_of_nodup_map ((List.pairwise_map.mpr hcs).imp Nat.ne_of_lt) hc hd h

/-- Of candidates one after another there is one winner. -/
theorem IsWinner.eq {m' : Match} (h : IsWinner content strategy cs m)
    (h' : IsWinner content strategy cs m') : m = m' := by
  have hposition : m.candidate.position = m'.candidate.position :=
    (h.earliest _ h'.leads).antisymm (h'.earliest _ h.leads)
  have hcandidate : m.candidate = m'.candidate :=
    eq_of_position_eq hcs (mem_leaders_iff.mp h.leads).1 (mem_leaders_iff.mp h'.leads).1 hposition
  have hambiguity : m.ambiguity = m'.ambiguity := by
    rw [h.ambiguity_eq, h'.ambiguity_eq, hposition]
  cases m
  cases m'
  exact congr (congrArg _ hcandidate) hambiguity

/-- Of candidates one after another the winner is chosen. -/
theorem choose?_eq_some_iff :
    choose? content strategy cs = some m ↔ IsWinner content strategy cs m := by
  refine ⟨isWinner_of_choose?, fun hm => ?_⟩
  obtain ⟨m', hm'⟩ :=
    exists_choose? (List.ne_nil_of_mem (mem_leaders_iff.mp hm.leads).1) content strategy
  rw [hm', (isWinner_of_choose? hm').eq hcs hm]

/-- The first of candidates of the same confidence is chosen. -/
theorem exists_choose?_of_forall {confidence : Rat} (h : ∀ c ∈ cs, c.confidence = confidence)
    (hc : c ∈ cs) (hfirst : ∀ d ∈ cs, c.position ≤ d.position) (content : Text)
    (strategy : Strategy) : ∃ m, choose? content strategy cs = some m ∧ m.candidate = c := by
  obtain ⟨m, hm⟩ := exists_choose? (List.ne_nil_of_mem hc) content strategy
  obtain ⟨hleads, hearliest, -⟩ := isWinner_of_choose? hm
  rw [leaders_eq_self h] at hleads hearliest
  exact ⟨m, hm, eq_of_position_eq hcs hleads hc ((hearliest c hc).antisymm (hfirst _ hleads))⟩

/-- A choice among candidates is made as if those of lower confidence were not there. -/
theorem choose?_of_filter {p : Candidate → Bool}
    (hp : ∀ c d : Candidate, c.confidence ≤ d.confidence → p c = true → p d = true)
    (h : choose? content strategy (cs.filter p) = some m) :
    choose? content strategy cs = some m := by
  have hleaders : leaders (cs.filter p) = leaders cs :=
    leaders_filter hp (List.ne_nil_of_mem (mem_of_choose? h))
  obtain ⟨hleads, hearliest, hambiguity⟩ := isWinner_of_choose? h
  rw [hleaders] at hleads hearliest hambiguity
  exact (choose?_eq_some_iff hcs).mpr ⟨hleads, hearliest, hambiguity⟩

end Order

end Emend.Match
