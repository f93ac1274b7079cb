import Emend.Block.Reader

/-!
# The grammar of edit blocks

Which texts the reader of blocks accepts, and how it names the fault of any other text, said without
the reader. The rows of an accepted text consist of blocks (`Consist`): a start line, rows that are
no markers, a separator, rows that neither start nor end a block, an end line, and around the blocks
rows that start none. The rows of any other text have a fault (`Faulty`): there is no start line at
all, or after some complete blocks one starts that is broken (`Breaks`), by a marker that may not
stand there or by the end of the text.

Rows of each of these forms take the reader to what the form says, whatever follows them
(`Reader.run_consist`, `Reader.run_breaks`), and any rows have one of the two forms
(`consist_or_faulty`), so that the reader accepts exactly the grammar (`read_accepts_grammar`).
-/

namespace Emend.EditBlock

/-- The rows of a block can stand between its markers: no row of the search text is a marker, and no
row of the replacement starts or ends a block. -/
structure Rows.Enclosed (b : Rows) : Prop where
  /-- A row of the search text is no marker. -/
  search : ∀ row ∈ b.search, Marker.ofRow row = .other
  /-- A row of the replacement neither starts nor ends a block. -/
  replacement : ∀ row ∈ b.replacement, Marker.ofRow row ≠ .start ∧ Marker.ofRow row ≠ .finish

instance (b : Rows) : Decidable b.Enclosed :=
  decidable_of_iff ((∀ row ∈ b.search, Marker.ofRow row = .other) ∧
      ∀ row ∈ b.replacement, Marker.ofRow row ≠ .start ∧ Marker.ofRow row ≠ .finish)
    ⟨fun h => ⟨h.1, h.2⟩, fun h => ⟨h.search, h.replacement⟩⟩

/-- The rows consist of complete blocks with rows around them that start none. -/
inductive Consist : List Text → List Rows → Prop
  /-- No row starts a block. -/
  | rest {rows : List Text} : (∀ row ∈ rows, Marker.ofRow row ≠ .start) → Consist rows []
  /-- After rows that start none there is a block, and more blocks may follow. -/
  | block {lead rows : List Text} {start separator finish : Text} {b : Rows} {blocks : List Rows} :
    (∀ row ∈ lead, Marker.ofRow row ≠ .start) → Marker.ofRow start = .start → b.Enclosed →
    Marker.ofRow separator = .separator → Marker.ofRow finish = .finish → Consist rows blocks →
    Consist (lead ++ start :: (b.search ++ separator :: (b.replacement ++ finish :: rows)))
      (b :: blocks)

/-- The rows after a start line, which is the last of the first `line` rows, do not complete its
block. -/
inductive Breaks (line : Nat) : List Text → Fault → Prop
  /-- The text ends in the search text. -/
  | openSearch {search : List Text} :
    (∀ row ∈ search, Marker.ofRow row = .other) → Breaks line search .openSearch
  /-- The search text is followed by another start line. -/
  | missingSeparator {search rest : List Text} {row : Text} :
    (∀ row ∈ search, Marker.ofRow row = .other) → Marker.ofRow row = .start →
    Breaks line (search ++ row :: rest) (.missingSeparator (line + search.length + 1))
  /-- The search text is followed by an end line. -/
  | earlyEnd {search rest : List Text} {row : Text} :
    (∀ row ∈ search, Marker.ofRow row = .other) → Marker.ofRow row = .finish →
    Breaks line (search ++ row :: rest) (.earlyEnd (line + search.length + 1))
  /-- The text ends in the replacement. -/
  | openReplacement {b : Rows} {separator : Text} :
    b.Enclosed → Marker.ofRow separator = .separator →
    Breaks line (b.search ++ separator :: b.replacement) .openReplacement
  /-- The replacement is followed by another start line. -/
  | missingEnd {b : Rows} {separator row : Text} {rest : List Text} :
    b.Enclosed → Marker.ofRow separator = .separator → Marker.ofRow row = .start →
    Breaks line (b.search ++ separator :: (b.replacement ++ row :: rest))
      (.missingEnd (line + b.search.length + 1 + b.replacement.length + 1))

/-- The rows have a fault, which belongs to the block after the complete ones, or to none if no
block starts. -/
inductive Faulty : List Text → ParseError → Prop
  /-- No row starts a block. -/
  | noBlocks {rows : List Text} :
    (∀ row ∈ rows, Marker.ofRow row ≠ .start) → Faulty rows ⟨.noBlocks, none⟩
  /-- After some complete blocks one starts that is broken. -/
  | broken {front rest : List Text} {blocks : List Rows} {start : Text} {fault : Fault} :
    Consist front blocks → Marker.ofRow start = .start → Breaks (front.length + 1) rest fault →
    Faulty (front ++ start :: rest) ⟨fault, some blocks.length⟩

/-! ## What the reader makes of rows -/

namespace Reader

variable {complete : List Rows} {count : Nat}

/-- The reader goes on with the next row after one that is no fault. -/
theorem run_cons_of_ok {r next : Reader} {row : Text} (h : r.step row = .ok next)
    (rows : List Text) : r.run (row :: rows) = next.run rows := by
  rw [run, h]

/-- The reader stops at a fault, which it puts down to the block after the complete ones. -/
theorem run_cons_of_error {r : Reader} {row : Text} {fault : Fault}
    (h : r.step row = .error fault) (rows : List Text) :
    r.run (row :: rows) = (r.complete, some ⟨fault, some r.complete.length⟩) := by
  rw [run, h]

/-- Between blocks, rows that start none are passed over. -/
theorem run_outside {lead : List Text} (h : ∀ row ∈ lead, Marker.ofRow row ≠ .start)
    (rest : List Text) :
    (⟨complete, .outside, count⟩ : Reader).run (lead ++ rest) =
      (⟨complete, .outside, count + lead.length⟩ : Reader).run rest := by
  induction lead generalizing count with
  | nil => rfl
  | cons row lead ih =>
    obtain ⟨hrow, hlead⟩ := List.forall_mem_cons.mp h
    have hstep : (⟨complete, .outside, count⟩ : Reader).step row =
        .ok ⟨complete, .outside, count + 1⟩ := by
      unfold step
      split <;> simp_all
    rw [List.cons_append, run_cons_of_ok hstep, ih hlead, List.length_cons, Nat.add_assoc,
      Nat.add_comm 1]

/-- In a search text, rows that are no markers are taken in. -/
theorem run_inSearch {rows : List Text} (h : ∀ row ∈ rows, Marker.ofRow row = .other)
    (search rest : List Text) :
    (⟨complete, .inSearch search, count⟩ : Reader).run (rows ++ rest) =
      (⟨complete, .inSearch (search ++ rows), count + rows.length⟩ : Reader).run rest := by
  induction rows generalizing search count with
  | nil =>
    rw [List.append_nil]
    rfl
  | cons row rows ih =>
    obtain ⟨hrow, hrows⟩ := List.forall_mem_cons.mp h
    have hstep : (⟨complete, .inSearch search, count⟩ : Reader).step row =
        .ok ⟨complete, .inSearch (search ++ [row]), count + 1⟩ := by
      unfold step
      dsimp only
      rw [hrow]
    rw [List.cons_append, run_cons_of_ok hstep, ih hrows, List.length_cons, Nat.add_assoc,
      Nat.add_comm 1, List.append_assoc, List.singleton_append]

/-- In a replacement, rows that neither start nor end a block are taken in. -/
theorem run_inReplacement {rows : List Text}
    (h : ∀ row ∈ rows, Marker.ofRow row ≠ .start ∧ Marker.ofRow row ≠ .finish)
    (search replacement rest : List Text) :
    (⟨complete, .inReplacement search replacement, count⟩ : Reader).run (rows ++ rest) =
      (⟨complete, .inReplacement search (replacement ++ rows), count + rows.length⟩ : Reader).run
        rest := by
  induction rows generalizing replacement count with
  | nil =>
    rw [List.append_nil]
    rfl
  | cons row rows ih =>
    obtain ⟨⟨hstart, hfinish⟩, hrows⟩ := List.forall_mem_cons.mp h
    have hstep : (⟨complete, .inReplacement search replacement, count⟩ : Reader).step row =
        .ok ⟨complete, .inReplacement search (replacement ++ [row]), count + 1⟩ := by
      unfold step
      split <;> simp_all
    rw [List.cons_append, run_cons_of_ok hstep, ih hrows, List.length_cons, Nat.add_assoc,
      Nat.add_comm 1, List.append_assoc, List.singleton_append]

/-- A start line opens a search text. -/
theorem run_start {start : Text} (h : Marker.ofRow start = .start) (rest : List Text) :
    (⟨complete, .outside, count⟩ : Reader).run (start :: rest) =
      (⟨complete, .inSearch [], count + 1⟩ : Reader).run rest := by
  refine run_cons_of_ok ?_ rest
  unfold step
  dsimp only
  rw [h]

/-- A search text and the separator after it lead to an empty replacement. -/
theorem run_separator {search : List Text} {separator : Text}
    (hsearch : ∀ row ∈ search, Marker.ofRow row = .other)
    (hseparator : Marker.ofRow separator = .separator) (rest : List Text) :
    (⟨complete, .inSearch [], count⟩ : Reader).run (search ++ separator :: rest) =
      (⟨complete, .inReplacement search [], count + search.length + 1⟩ : Reader).run rest := by
  rw [run_inSearch hsearch]
  refine run_cons_of_ok ?_ rest
  unfold step
  dsimp only
  rw [hseparator]
  rfl

/-- Rows that consist of blocks complete these and no other. -/
theorem run_consist {front : List Text} {blocks : List Rows} (h : Consist front blocks)
    (rest : List Text) :
    (⟨complete, .outside, count⟩ : Reader).run (front ++ rest) =
      (⟨complete ++ blocks, .outside, count + front.length⟩ : Reader).run rest := by
  induction h generalizing complete count with
  | rest hrows =>
    rw [run_outside hrows, List.append_nil]
  | @block lead rows start separator finish b blocks hlead hstart hb hseparator hfinish _ ih =>
    have hstep : ∀ n, (⟨complete, .inReplacement b.search b.replacement, n⟩ : Reader).step finish =
        .ok ⟨complete ++ [b], .outside, n + 1⟩ := by
      intro n
      unfold step
      dsimp only
      rw [hfinish]
    have hcount : count + lead.length + 1 + b.search.length + 1 + b.replacement.length + 1 +
        rows.length = count + (lead ++ start :: (b.search ++ separator ::
          (b.replacement ++ finish :: rows))).length := by
      simp only [List.length_append, List.length_cons]
      omega
    rw [← hcount]
    simp only [List.append_assoc, List.cons_append]
    rw [run_outside hlead, run_start hstart, run_separator hb.search hseparator,
      run_inReplacement hb.replacement, List.nil_append, run_cons_of_ok (hstep _), ih,
      List.append_assoc, List.singleton_append]

/-- Rows that break a block are a fault of it. -/
theorem run_breaks {line : Nat} {rows : List Text} {fault : Fault} (h : Breaks line rows fault) :
    (⟨complete, .inSearch [], line⟩ : Reader).run rows =
      (complete, some ⟨fault, some complete.length⟩) := by
  cases h with
  | openSearch hsearch =>
    rw [← List.append_nil rows, run_inSearch hsearch]
    rfl
  | missingSeparator hsearch hrow =>
    rw [run_inSearch hsearch]
    refine run_cons_of_error ?_ _
    unfold step
    dsimp only
    rw [hrow]
  | earlyEnd hsearch hrow =>
    rw [run_inSearch hsearch]
    refine run_cons_of_error ?_ _
    unfold step
    dsimp only
    rw [hrow]
  | @openReplacement b separator hb hseparator =>
    rw [run_separator hb.search hseparator, ← List.append_nil b.replacement,
      run_inReplacement hb.replacement]
    rfl
  | missingEnd hb hseparator hrow =>
    rw [run_separator hb.search hseparator, run_inReplacement hb.replacement]
    refine run_cons_of_error ?_ _
    unfold step
    dsimp only
    rw [hrow]

end Reader

/-! ## The two forms of rows -/

/-- All members of a list satisfy `p`, or there is a first one that does not. -/
theorem forall_or_exists_first {α : Type} (p : α → Prop) [DecidablePred p] (xs : List α) :
    (∀ x ∈ xs, p x) ∨ ∃ front x rest, xs = front ++ x :: rest ∧ (∀ y ∈ front, p y) ∧ ¬ p x := by
  cases hfind : xs.find? fun x => !decide (p x) with
  | none =>
    rw [List.find?_eq_none] at hfind
    exact .inl fun x hx => by simpa using hfind x hx
  | some x =>
    obtain ⟨hx, front, rest, hxs, hfront⟩ := List.find?_eq_some_iff_append.mp hfind
    exact .inr ⟨front, x, rest, hxs, fun y hy => by simpa using hfront y hy, by simpa using hx⟩

/-- The rows after a start line complete its block, or they break it wherever it stands. -/
theorem exists_block_or_breaks (rows : List Text) :
    (∃ (b : Rows) (separator finish : Text) (rest : List Text),
      rows = b.search ++ separator :: (b.replacement ++ finish :: rest) ∧ b.Enclosed ∧
        Marker.ofRow separator = .separator ∧ Marker.ofRow finish = .finish) ∨
    ∀ line, ∃ fault, Breaks line rows fault := by
  rcases forall_or_exists_first (Marker.ofRow · = .other) rows with hsearch |
    ⟨search, row, tail, rfl, hsearch, hrow⟩
  · exact .inr fun line => ⟨_, .openSearch hsearch⟩
  · cases hmarker : Marker.ofRow row with
    | start => exact .inr fun line => ⟨_, .missingSeparator hsearch hmarker⟩
    | finish => exact .inr fun line => ⟨_, .earlyEnd hsearch hmarker⟩
    | other => exact absurd hmarker hrow
    | separator =>
      rcases forall_or_exists_first
        (fun row => Marker.ofRow row ≠ .start ∧ Marker.ofRow row ≠ .finish) tail with hreplacement |
        ⟨replacement, last, rest, rfl, hreplacement, hlast⟩
      · have hb : (⟨search, tail⟩ : Rows).Enclosed := ⟨hsearch, hreplacement⟩
        exact .inr fun line => ⟨_, .openReplacement hb hmarker⟩
      · have hb : (⟨search, replacement⟩ : Rows).Enclosed := ⟨hsearch, hreplacement⟩
        by_cases hstart : Marker.ofRow last = .start
        · exact .inr fun line => ⟨_, .missingEnd hb hmarker hstart⟩
        · have hfinish : Marker.ofRow last = .finish :=
            Decidable.by_contra fun hne => hlast ⟨hstart, hne⟩
          exact .inl ⟨_, row, last, rest, rfl, hb, hmarker, hfinish⟩

/-- Any rows consist of blocks, or they do up to a block that starts and is broken. -/
theorem consist_or_breaks (rows : List Text) :
    (∃ blocks, Consist rows blocks) ∨
    ∃ front start rest blocks, rows = front ++ start :: rest ∧ Consist front blocks ∧
      Marker.ofRow start = .start ∧ ∀ line, ∃ fault, Breaks line rest fault := by
  rcases forall_or_exists_first (Marker.ofRow · ≠ .start) rows with hnone |
    ⟨lead, start, tail, rfl, hlead, hstart⟩
  · exact .inl ⟨[], .rest hnone⟩
  · have hstart := Decidable.not_not.mp hstart
    rcases exists_block_or_breaks tail with
      ⟨b, separator, finish, tail, rfl, hb, hseparator, hfinish⟩ | hbreaks
    · -- The rows after the block are fewer.
      rcases consist_or_breaks tail with ⟨blocks, hblocks⟩ |
        ⟨front, next, rest, blocks, rfl, hfront, hnext, hbreaks⟩
      · exact .inl ⟨_, .block hlead hstart hb hseparator hfinish hblocks⟩
      · refine .inr ⟨_, next, rest, _, ?_, .block hlead hstart hb hseparator hfinish hfront, hnext,
          hbreaks⟩
        simp only [List.append_assoc, List.cons_append]
    · exact .inr ⟨lead, start, tail, [], rfl, .rest hlead, hstart, hbreaks⟩
termination_by rows.length
decreasing_by
  subst_vars
  simp
  omega

/-- Any rows consist of blocks, of which there is one, or they have a fault. -/
theorem consist_or_faulty (rows : List Text) :
    (∃ blocks, blocks ≠ [] ∧ Consist rows blocks) ∨ ∃ e, Faulty rows e := by
  rcases consist_or_breaks rows with ⟨blocks, hblocks⟩ |
    ⟨front, start, rest, blocks, rfl, hfront, hstart, hbreaks⟩
  · cases blocks with
    | nil =>
      cases hblocks with
      | rest hnone => exact .inr ⟨_, .noBlocks hnone⟩
    | cons b blocks => exact .inl ⟨_, List.cons_ne_nil b blocks, hblocks⟩
  · obtain ⟨fault, hfault⟩ := hbreaks (front.length + 1)
    exact .inr ⟨_, .broken hfront hstart hfault⟩

/-! ## What is read -/

/-- The blocks of an edit text whose rows consist of them, numbered in order, and their texts. -/
theorem read_of_consist {edit : Text} {blocks : List Rows} (hne : blocks ≠ [])
    (h : Consist edit.unifyEndings.rows blocks) :
    (read edit).value =
      .ok (blocks.mapIdx fun i b => ⟨i, b.search.flatten, b.replacement.flatten⟩) := by
  have hrun : Reader.initial.run edit.unifyEndings.rows = (blocks, none) := by
    generalize edit.unifyEndings.rows = rows at h
    have hfault : (⟨blocks, .outside, 0 + rows.length⟩ : Reader).endFault? = none := by
      unfold Reader.endFault?
      dsimp only
      rw [if_neg (mt List.isEmpty_iff.mp hne)]
    rw [← List.append_nil rows, Reader.initial, Reader.run_consist h, List.nil_append, Reader.run,
      hfault]
  unfold read
  rw [hrun]
  rfl

/-- The fault of an edit text whose rows have it. -/
theorem read_of_faulty {edit : Text} {e : ParseError} (h : Faulty edit.unifyEndings.rows e) :
    (read edit).value = .error e := by
  obtain ⟨blocks, hrun⟩ :
      ∃ blocks, Reader.initial.run edit.unifyEndings.rows = (blocks, some e) := by
    generalize edit.unifyEndings.rows = rows at h
    cases h with
    | noBlocks hnone =>
      refine ⟨[], ?_⟩
      rw [← List.append_nil rows, Reader.initial, Reader.run_outside hnone]
      rfl
    | @broken front rest blocks start fault hfront hstart hbreaks =>
      refine ⟨blocks, ?_⟩
      rw [Reader.initial, Reader.run_consist hfront, Reader.run_start hstart, List.nil_append,
        Nat.zero_add, Reader.run_breaks hbreaks]
  unfold read
  rw [hrun]
  rfl

/-- The rows of an edit text that is read consist of blocks, and these are what is read. -/
theorem exists_consist_of_read {edit : Text} {blocks : List EditBlock}
    (h : (read edit).value = .ok blocks) :
    ∃ sections, sections ≠ [] ∧ Consist edit.unifyEndings.rows sections ∧
      blocks = sections.mapIdx fun i s => ⟨i, s.search.flatten, s.replacement.flatten⟩ := by
  rcases consist_or_faulty edit.unifyEndings.rows with ⟨sections, hne, hconsist⟩ | ⟨e, hfaulty⟩
  · rw [read_of_consist hne hconsist] at h
    exact ⟨sections, hne, hconsist, (Except.ok.inj h).symm⟩
  · rw [read_of_faulty hfaulty] at h
    cases h

/-- The rows of an edit text that is not read have the fault that is reported. -/
theorem faulty_of_read {edit : Text} {e : ParseError} (h : (read edit).value = .error e) :
    Faulty edit.unifyEndings.rows e := by
  rcases consist_or_faulty edit.unifyEndings.rows with ⟨sections, hne, hconsist⟩ | ⟨e', hfaulty⟩
  · rw [read_of_consist hne hconsist] at h
    cases h
  · rw [read_of_faulty hfaulty] at h
    exact Except.error.inj h ▸ hfaulty

/-- The reader accepts a text just if its rows consist of blocks, of which there is one, and then
the blocks are numbered in order and have as texts what stands between their markers. Any other text
has one fault, which is none of a block if no block starts, and else is one of the first block that
is not complete. -/
theorem read_accepts_grammar (edit : Text) :
    (∀ blocks, (read edit).value = .ok blocks ↔
      ∃ sections, sections ≠ [] ∧ Consist edit.unifyEndings.rows sections ∧
        blocks = sections.mapIdx fun i s => ⟨i, s.search.flatten, s.replacement.flatten⟩) ∧
    (∀ e, (read edit).value = .error e ↔ Faulty edit.unifyEndings.rows e) := by
  refine ⟨fun blocks => ⟨exists_consist_of_read, ?_⟩, fun e => ⟨faulty_of_read, read_of_faulty⟩⟩
  rintro ⟨sections, hne, h, rfl⟩
  exact read_of_consist hne h

end Emend.EditBlock
