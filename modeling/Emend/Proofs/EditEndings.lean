import Emend.Proofs.DocumentEndings
import Emend.Proofs.ReadAlike
import Emend.Proofs.Unwrapping

/-!
# Line endings of an edit text

The line endings of an edit text do not matter once its wrapping is off: each dialect reads the text
with unified endings, and so is the dialect told (`applyWith_writeEndings`). The wrapping itself is
looked for in the text as it is given. Tags are found in the same places whatever the lines end with
(`afterFirst_writeEndings`), but only a line feed is taken off after a thought, and only a line feed
ends the first line of a fence (`insideFence?_writeEndings`).

So an edit text with other line endings than line feeds loses its thoughts and nothing else
(`Wrapping.keepingBreaks`, `Wrapping.unwrap_writeEndings`), and it is applied as what is left then
(`applyAuto_eq_applyDetected`). The same comes of it as with line feeds whenever that is read like
the unwrapped text (`applyAuto_writeEndings`). It is so for each wrapping of an edit text that leaves
nothing open, as the lines of a fence and the empty line after a thought are idle
(`Wrapping.readAlike_wrapped`, `applyAuto_wrapped_writeEndings`).

A fenced diff with counts that are too high leaves its last hunk open. With carriage returns the
hunk takes in the closing line of the fence, and the diff is not applied as it is with line feeds
(`applyAuto_fencedDiff`).
-/

namespace Emend

/-- A line ending is one or more characters that break lines. -/
theorem LineEnding.exists_text (e : LineEnding) :
    ∃ k ks, e.text = k :: ks ∧ ∀ c ∈ k :: ks, c = '\n' ∨ c = '\r' := by
  cases e <;> exact ⟨_, _, rfl, by simp⟩

/-! ## Texts with other line endings -/

namespace Text

variable {word t : Text} {c : Char}

/-- No character of a line ending is one of a word without line breaks. -/
theorem notMem_of_mem_ending (hword : IsPlain word) {e : LineEnding} (hc : c ∈ e.text) :
    c ∉ word := by
  obtain ⟨k, ks, htext, hbreak⟩ := e.exists_text
  rcases hbreak c (htext ▸ hc) with rfl | rfl
  · exact hword.1
  · exact hword.2

/-- After a word without line breaks comes what was written after it. -/
theorem after_writeEndings (hword : IsPlain word) (e : LineEnding) (t : Text) :
    after word (t.writeEndings e.text) = (after word t).map (writeEndings · e.text) := by
  induction word generalizing t with
  | nil => rfl
  | cons w ws ih =>
    have hws : IsPlain ws := (isPlain_append (s := [w]).mp hword).2
    cases t with
    | nil => rfl
    | cons c t =>
      by_cases hc : c = '\n'
      · obtain ⟨k, ks, htext, -⟩ := e.exists_text
        have hk : k ∉ w :: ws := notMem_of_mem_ending hword (htext ▸ List.mem_cons_self)
        have hkw : w ≠ k := (List.ne_of_not_mem_cons hk).symm
        have hw : w ≠ '\n' := (List.ne_of_not_mem_cons hword.1).symm
        rw [hc, writeEndings_cons_feed, htext, List.cons_append, after, if_neg hkw, after,
          if_neg hw]
        rfl
      · rw [writeEndings_cons hc, after, after, ih hws]
        split <;> rfl

/-- After the first occurrence of a word without line breaks comes what was written after it. -/
theorem afterFirst_writeEndings (hword : IsPlain word) (hne : word ≠ []) (e : LineEnding)
    (t : Text) :
    afterFirst word (t.writeEndings e.text) = (afterFirst word t).map (writeEndings · e.text) := by
  induction t with
  | nil => exact after_writeEndings hword e []
  | cons c t ih =>
    by_cases hc : c = '\n'
    · have hhere : after word ('\n' :: t) = none := by
        obtain ⟨w, ws, rfl⟩ := List.exists_cons_of_ne_nil hne
        exact if_neg (List.ne_of_not_mem_cons hword.1).symm
      have hending : ∀ d ∈ e.text, d ∉ word := fun d hd => notMem_of_mem_ending hword hd
      rw [hc, writeEndings_cons_feed,
        afterFirst_append_of_apart (not_prefix_append_of_notMem hne hending _), ih, afterFirst,
        hhere]
    · have hhere := after_writeEndings hword e (c :: t)
      rw [writeEndings_cons hc] at hhere ⊢
      rw [afterFirst, afterFirst, hhere, ih]
      cases after word (c :: t) <;> rfl

/-- A text does not start with a line feed once other endings than line feeds are written. -/
theorem head?_writeEndings_ne {e : LineEnding} (he : e ≠ .lf) (t : Text) :
    (t.writeEndings e.text).head? ≠ some '\n' := by
  cases t with
  | nil => exact (Option.some_ne_none '\n').symm
  | cons c t =>
    by_cases hc : c = '\n'
    · rw [hc, writeEndings_cons_feed]
      cases e with
      | lf => exact absurd rfl he
      | crlf => exact fun h => absurd (Option.some.inj h) (by decide)
      | cr => exact fun h => absurd (Option.some.inj h) (by decide)
    · rw [writeEndings_cons hc]
      exact fun h => hc (Option.some.inj h)

/-- Then line feeds stand only after carriage returns. -/
theorem isChain_writeEndings {e : LineEnding} (he : e ≠ .lf) (t : Text) :
    (t.writeEndings e.text).IsChain fun c d => d = '\n' → c = '\r' := by
  induction t with
  | nil => exact .nil
  | cons c t ih =>
    -- What is written over one character ends before a character that is no line feed.
    have hmeet : ∀ x ∈ (writeEndings [c] e.text).getLast?, ∀ d ∈ (writeEndings t e.text).head?,
        d = '\n' → x = '\r' := by
      rintro x - d hd rfl
      exact absurd hd (head?_writeEndings_ne he t)
    have hchar : (writeEndings [c] e.text).IsChain fun c d => d = '\n' → c = '\r' := by
      by_cases hc : c = '\n'
      · subst hc
        cases e with
        | lf => exact absurd rfl he
        | crlf => exact .cons_cons (fun _ => rfl) (.singleton _)
        | cr => exact .singleton _
      · rw [writeEndings_cons hc]
        exact .singleton _
    rw [← List.singleton_append, writeEndings_append]
    exact List.isChain_append.mpr ⟨hchar, ih, hmeet⟩

end Text

/-! ## Unwrapping -/

namespace Wrapping

variable {t rest : Text} {c : Char}

/-- No thought in a text has a line feed right after it. -/
def NoBreakAfterThought (t : Text) : Prop :=
  ∀ rest tail, openTag ++ rest <:+ t → Text.afterFirst closeTag rest = some tail →
    tail.head? ≠ some '\n'

/-- Unwrapping a text takes no line break off it. -/
structure TakesNoBreak (t : Text) : Prop where
  /-- No thought has a line feed right after it. -/
  thought : NoBreakAfterThought t
  /-- No fence encloses what is left without the thoughts. -/
  fence : insideFence? (withoutThoughts t) = none

/-- No fence is taken off a text with other line endings than line feeds. -/
theorem insideFence?_writeEndings {e : LineEnding} (he : e ≠ .lf) (t : Text) :
    insideFence? (t.writeEndings e.text) = none := by
  have hnone : afterOpening? (t.writeEndings e.text) = none := by
    rw [Option.eq_none_iff_forall_ne_some]
    intro body hbody
    obtain ⟨lead, line, htext, hline⟩ := exists_of_afterOpening? hbody
    have hopening : '\r' ∉ fence ++ line :=
      List.mem_append.not.mpr (not_or.mpr ⟨by decide, hline⟩)
    -- The line feed stands after the last character of the line, which is no carriage return.
    obtain ⟨front, c, hlast⟩ : ∃ front c, fence ++ line = front ++ [c] :=
      (List.eq_nil_or_concat' (fence ++ line)).resolve_left (List.cons_ne_nil _ _)
    have hchain := Text.isChain_writeEndings he t
    have hshape : t.writeEndings e.text = (lead ++ front) ++ c :: '\n' :: body := by
      rw [htext, ← List.append_assoc fence, hlast]
      simp only [List.append_assoc, List.singleton_append]
    rw [hshape, List.isChain_append_cons_cons] at hchain
    rw [hlast, hchain.2.1 rfl] at hopening
    exact hopening (List.mem_append_right front (List.mem_singleton_self _))
  rw [insideFence?, hnone]
  rfl

/-- The thoughts in the end of a text are thoughts in the text. -/
theorem NoBreakAfterThought.suffix (h : NoBreakAfterThought t) (hrest : rest <:+ t) :
    NoBreakAfterThought rest :=
  fun mid tail hmid => h mid tail (hmid.trans hrest)

/-- A text that does not start with a line feed stays as it is. -/
theorem dropBreak_of_head?_ne (h : t.head? ≠ some '\n') : dropBreak t = t := by
  unfold dropBreak
  split
  · exact absurd rfl h
  · rfl

/-- A text without its thoughts, but with the line feeds after them and the fence around it. -/
def keepingBreaks (t : Text) : Text :=
  match t with
  | [] => []
  | c :: r =>
    match _h : afterTags? (c :: r) with
    | some rest => keepingBreaks rest
    | none => c :: keepingBreaks r
termination_by t.length
decreasing_by
  · exact afterTags?_length_lt _h
  · exact Nat.lt_succ_self _

/-- A thought at the start of a text is taken off up to its closing tag. -/
theorem keepingBreaks_of_some (h : afterTags? t = some rest) :
    keepingBreaks t = keepingBreaks rest := by
  cases t with
  | nil => cases h
  | cons c t =>
    rw [keepingBreaks]
    split
    · next rest' h' => rw [Option.some.inj (h'.symm.trans h)]
    · next h' => rw [h'] at h; cases h

/-- A character that starts no thought is kept. -/
theorem keepingBreaks_of_none (h : afterTags? (c :: t) = none) :
    keepingBreaks (c :: t) = c :: keepingBreaks t := by
  rw [keepingBreaks]
  split
  · next rest' h' => rw [h] at h'; cases h'
  · rfl

/-- Nothing is added. -/
theorem keepingBreaks_sublist (t : Text) : (keepingBreaks t).Sublist t := by
  induction t using keepingBreaks.induct with
  | case1 => rw [keepingBreaks]
  | case2 c t rest h ih =>
    rw [keepingBreaks_of_some h]
    exact ih.trans (afterTags?_suffix h).sublist
  | case3 c t h ih =>
    rw [keepingBreaks_of_none h]
    exact ih.cons_cons c

/-- Without line feeds after thoughts no other text is left than without thoughts. -/
theorem keepingBreaks_eq_withoutThoughts (h : NoBreakAfterThought t) :
    keepingBreaks t = withoutThoughts t := by
  induction t using keepingBreaks.induct with
  | case1 => rw [keepingBreaks, withoutThoughts]
  | case2 c t rest hrest ih =>
    obtain ⟨mid, hmid, hclose⟩ := afterTags?_eq_some_iff.mp hrest
    have hhead : rest.head? ≠ some '\n' := h mid rest (hmid ▸ List.suffix_rfl) hclose
    have hthought : afterThought? (c :: t) = some rest := by
      rw [afterThought?_eq, hrest, Option.map_some, dropBreak_of_head?_ne hhead]
    rw [keepingBreaks_of_some hrest, withoutThoughts_of_some hthought]
    exact ih (h.suffix (afterTags?_suffix hrest))
  | case3 c t hnone ih =>
    have hthought : afterThought? (c :: t) = none := by
      rw [afterThought?_eq, hnone, Option.map_none]
    rw [keepingBreaks_of_none hnone, withoutThoughts_of_none hthought,
      ih (h.suffix (List.suffix_cons c t))]

/-- So no other text is left than the unwrapped one, if unwrapping takes no line break off. -/
theorem TakesNoBreak.keepingBreaks_eq (h : TakesNoBreak t) : keepingBreaks t = unwrap t := by
  rw [unwrap, h.fence, keepingBreaks_eq_withoutThoughts h.thought]

/-- What follows the tags of a thought is what was written after them. -/
theorem afterTags?_writeEndings (e : LineEnding) (t : Text) :
    afterTags? (t.writeEndings e.text) = (afterTags? t).map (Text.writeEndings · e.text) := by
  have hopen : Text.IsPlain openTag := by decide
  have hclose : Text.IsPlain closeTag := by decide
  rw [afterTags?, afterTags?, Text.after_writeEndings hopen]
  cases Text.after openTag t with
  | none => rfl
  | some mid => exact Text.afterFirst_writeEndings hclose (List.cons_ne_nil _ _) e mid

/-- Thoughts are taken off a text with other line endings without what stands after them. -/
theorem withoutThoughts_writeEndings {e : LineEnding} (he : e ≠ .lf) (t : Text) :
    withoutThoughts (t.writeEndings e.text) = (keepingBreaks t).writeEndings e.text := by
  induction t using keepingBreaks.induct with
  | case1 =>
    rw [keepingBreaks]
    exact (withoutThoughts_eq_self_iff []).mpr (by decide)
  | case2 c t rest hrest ih =>
    have hwritten : afterThought? (Text.writeEndings (c :: t) e.text) =
        some (rest.writeEndings e.text) := by
      rw [afterThought?_eq, afterTags?_writeEndings, hrest]
      exact congrArg some (dropBreak_of_head?_ne (Text.head?_writeEndings_ne he rest))
    rw [withoutThoughts_of_some hwritten, keepingBreaks_of_some hrest, ih]
  | case3 c t hnone ih =>
    rw [keepingBreaks_of_none hnone]
    by_cases hc : c = '\n'
    · -- No character of a line ending starts a tag.
      have hending : ∀ d ∈ e.text, d ∉ openTag := fun d hd =>
        Text.notMem_of_mem_ending (by decide) hd
      have hapart := Text.not_prefix_append_of_notMem (List.cons_ne_nil _ _) hending
      rw [hc, Text.writeEndings_cons_feed, Text.writeEndings_cons_feed,
        withoutThoughts_append (hapart _), ih]
    · have hwritten : afterThought? (c :: Text.writeEndings t e.text) = none := by
        rw [← Text.writeEndings_cons hc, afterThought?_eq, afterTags?_writeEndings, hnone]
        rfl
      rw [Text.writeEndings_cons hc, Text.writeEndings_cons hc, withoutThoughts_of_none hwritten,
        ih]

/-- Unwrapping takes no line break off a text with other line endings than line feeds. -/
theorem unwrap_writeEndings {e : LineEnding} (he : e ≠ .lf) (t : Text) :
    unwrap (t.writeEndings e.text) = (keepingBreaks t).writeEndings e.text := by
  have hfence : insideFence? ((keepingBreaks t).writeEndings e.text) = none :=
    insideFence?_writeEndings he _
  rw [unwrap, withoutThoughts_writeEndings he, hfence]

/-! ## Wrapped edit texts -/

variable {e info tail : Text}

/-- A text without an opening tag stays as it is. -/
theorem keepingBreaks_eq_self (h : ¬ openTag <:+: t) : keepingBreaks t = t := by
  have hbreak : NoBreakAfterThought t := fun rest _ hrest =>
    absurd ((List.prefix_append openTag rest).isInfix.trans hrest.isInfix) h
  rw [keepingBreaks_eq_withoutThoughts hbreak, withoutThoughts_of_not_infix h]

/-- Of a thought before a text the line feed is kept. -/
theorem keepingBreaks_thought_append (ht : ¬ closeTag <:+: t) (rest : Text) :
    keepingBreaks (thought t ++ rest) = '\n' :: keepingBreaks rest := by
  have hnone : afterTags? ('\n' :: rest) = none := rfl
  rw [keepingBreaks_of_some (afterTags?_thought_append ht rest), keepingBreaks_of_none hnone]

/-- The line that opens a fence is idle and no marker. -/
theorem isIdle_opening (hinfo : ∀ c ∈ info, Text.isWordChar c = true ∨ c = '-') :
    DiffLine.IsIdle (fence ++ info) ∧ Text.IsPlain (fence ++ info) ∧
      ∀ c ∈ ['<', '=', '>'], c ∉ fence ++ info := by
  have hnot : ∀ c, Text.isWordChar c = false ∧ c ≠ '-' ∧ c ∉ fence → c ∉ fence ++ info := by
    rintro c ⟨hword, hhyphen, hfence⟩ hmem
    rcases hinfo c ((List.mem_append.mp hmem).resolve_left hfence) with h | h
    · rw [hword] at h
      cases h
    · exact hhyphen h
  refine ⟨fun c hc => .inl (Option.some.inj hc).symm,
    ⟨hnot '\n' (by decide +kernel), hnot '\r' (by decide +kernel)⟩, fun c hc => hnot c ?_⟩
  simp only [List.mem_cons, List.not_mem_nil, or_false] at hc
  rcases hc with rfl | rfl | rfl <;> decide +kernel

/-- An edit text that leaves nothing open is read alike with and without each of the wrappings
around it. -/
theorem readAlike_wrapped (hends : e.endsLine = true) (hfence : ¬ fence <:+: e)
    (hopen : ¬ openTag <:+: e) (hinfo : ∀ c ∈ info, Text.isWordChar c = true ∨ c = '-')
    (htail : tail.isBlank = true) (hreturn : '\r' ∉ tail) (ht : ¬ closeTag <:+: t)
    (he : Edit.IsComplete e) :
    ∀ wrapped ∈ [e, thought t ++ e, fenced info e tail, thought t ++ fenced info e tail],
      Edit.ReadAlike (keepingBreaks wrapped) (unwrap wrapped) := by
  have hne : e ≠ [] := by
    rintro rfl
    cases hends
  -- Without its thought a wrapped text starts with a line feed, which is an empty line.
  have hthought (rest : Text) (hrest : ¬ openTag <:+: rest) (hne : rest ≠ [])
      (hread : Edit.ReadAlike rest e) :
      Edit.ReadAlike (keepingBreaks (thought t ++ rest)) e := by
    rw [keepingBreaks_thought_append ht, keepingBreaks_eq_self hrest]
    refine Edit.ReadAlike.trans ?_ hread
    have hidle : DiffLine.IsIdle [] := fun c hc => absurd hc (Option.not_mem_none c)
    exact Edit.readAlike_cons hidle (by decide) (fun c _ => List.not_mem_nil) hne
      (he.of_readAlike hread)
  have hfenced : Edit.ReadAlike (fenced info e tail) e := by
    obtain ⟨hidle, hplain, hmarker⟩ := isIdle_opening hinfo
    have hclosing := Edit.readAlike_append hends htail hreturn he
    have hshape : fenced info e tail = fence ++ info ++ '\n' :: (e ++ (fence ++ tail)) := by
      rw [fenced, List.append_assoc]
    rw [hshape]
    exact (Edit.readAlike_cons hidle hplain hmarker (List.append_ne_nil_of_left_ne_nil hne _)
      (he.of_readAlike hclosing)).trans hclosing
  have hopen' : ¬ openTag <:+: fenced info e tail := not_infix_fenced hends hopen hinfo htail
  intro wrapped hmem
  rw [unwrap_eq_of_wrapped hends hfence hopen hinfo htail ht wrapped hmem]
  simp only [List.mem_cons, List.not_mem_nil, or_false] at hmem
  rcases hmem with rfl | rfl | rfl | rfl
  · rw [keepingBreaks_eq_self hopen]
    exact .refl _
  · exact hthought e hopen hne (.refl e)
  · rw [keepingBreaks_eq_self hopen']
    exact hfenced
  · exact hthought _ hopen' (List.cons_ne_nil _ _) hfenced

end Wrapping

/-! ## Reading -/

section Reading

variable {s t : Text} (h : s.unifyEndings = t.unifyEndings)
include h

/-- Texts with the same unified endings show the same dialect. -/
theorem Dialect.detect_congr : detect s = detect t := by
  rw [detect, detect, looksLikeBlocks, looksLikeBlocks, looksLikeHunks, looksLikeHunks, h]

/-- Texts with the same unified endings are applied in the same way in either dialect. -/
theorem Edit.applyIn_congr (dialect : Dialect) (content : Text)
    (options : Except OptionError Options) :
    applyIn dialect content s options = applyIn dialect content t options := by
  cases dialect with
  | blocks =>
    have hread : EditBlock.read s = EditBlock.read t := by rw [EditBlock.read, EditBlock.read, h]
    rw [applyIn, applyIn, applyBlocks, applyBlocks, hread]
  | hunks =>
    have hread : ParsedDiff.read s = ParsedDiff.read t := by
      rw [ParsedDiff.read, ParsedDiff.read, DiffLine.ofEdit, DiffLine.ofEdit, h]
    rw [applyIn, applyIn, applyHunks, applyHunks, hread]

/-- They are so with any settings. -/
theorem Edit.applyWith_congr (dialect : Dialect) (content : Text) (settings : Value) :
    applyWith dialect content s settings = applyWith dialect content t settings := by
  unfold applyWith
  simp only [Edit.applyIn_congr h]

/-- They are so in the dialect that they show. -/
theorem Edit.applyDetected_congr (content : Text) (settings : Value) :
    applyDetected content s settings = applyDetected content t settings := by
  unfold applyDetected
  simp only [Dialect.detect_congr h, Edit.applyWith_congr h]

end Reading

/-! ## Applying -/

namespace Edit

variable {edit : Text}

/-- An edit text without carriage returns is applied in a dialect as it is with other line endings,
down to the errors and the records. -/
theorem applyWith_writeEndings (hedit : '\r' ∉ edit) (ending : LineEnding) (dialect : Dialect)
    (content : Text) (settings : Value) :
    applyWith dialect content (edit.writeEndings ending.text) settings =
      applyWith dialect content edit settings := by
  refine applyWith_congr ?_ dialect content settings
  rw [Text.unifyEndings_writeEndings hedit, Text.unifyEndings_of_notMem hedit]

/-- With other line endings than line feeds an edit text is applied automatically as what is left of
it without its thoughts alone. -/
theorem applyAuto_eq_applyDetected (hedit : '\r' ∉ edit) {ending : LineEnding}
    (hending : ending ≠ .lf) (content : Text) (settings : Value) :
    applyAuto content (edit.writeEndings ending.text) settings =
      applyDetected content (Wrapping.keepingBreaks edit) settings := by
  have hkept : '\r' ∉ Wrapping.keepingBreaks edit :=
    fun hmem => hedit ((Wrapping.keepingBreaks_sublist edit).subset hmem)
  have hauto : applyAuto content (edit.writeEndings ending.text) settings =
      applyDetected content (Wrapping.unwrap (edit.writeEndings ending.text)) settings := rfl
  rw [hauto, Wrapping.unwrap_writeEndings hending]
  refine applyDetected_congr ?_ content settings
  rw [Text.unifyEndings_writeEndings hkept, Text.unifyEndings_of_notMem hkept]

/-- The same comes of it as with line feeds, if what is left is read like the unwrapped text. -/
theorem applyAuto_of_readAlike (hedit : '\r' ∉ edit)
    (hread : ReadAlike (Wrapping.keepingBreaks edit) (Wrapping.unwrap edit)) (ending : LineEnding)
    (content : Text) (settings : Value) :
    (applyAuto content (edit.writeEndings ending.text) settings).value =
      (applyAuto content edit settings).value := by
  by_cases hending : ending = .lf
  · rw [hending, LineEnding.text, Text.writeEndings_lineFeed]
  · rw [applyAuto_eq_applyDetected hedit hending]
    exact hread.applyDetected_eq content settings

/-- An edit text that leaves nothing open is applied alike in each of the wrappings, whatever its
lines end with. -/
theorem applyAuto_wrapped_writeEndings {e info tail t : Text} (hends : e.endsLine = true)
    (hfence : ¬ Wrapping.fence <:+: e) (hopen : ¬ Wrapping.openTag <:+: e)
    (hinfo : ∀ c ∈ info, Text.isWordChar c = true ∨ c = '-') (htail : tail.isBlank = true)
    (hreturn : '\r' ∉ tail) (ht : ¬ Wrapping.closeTag <:+: t) (he : IsComplete e) :
    ∀ wrapped ∈ [e, Wrapping.thought t ++ e, Wrapping.fenced info e tail,
        Wrapping.thought t ++ Wrapping.fenced info e tail],
      '\r' ∉ wrapped → ∀ (ending : LineEnding) content settings,
        (applyAuto content (wrapped.writeEndings ending.text) settings).value =
          (applyAuto content e settings).value := by
  intro wrapped hmem hplain ending content settings
  have hread :=
    Wrapping.readAlike_wrapped hends hfence hopen hinfo htail hreturn ht he wrapped hmem
  have hwrapped : Wrapping.unwrap wrapped = e :=
    Wrapping.unwrap_eq_of_wrapped hends hfence hopen hinfo htail ht wrapped hmem
  have hbare : Wrapping.unwrap e = e := Wrapping.unwrap_of_not_infix hopen hfence
  rw [applyAuto_of_readAlike hplain hread, applyAuto, applyAuto, hwrapped, hbare]

/-- **Line endings of an edit text.** An edit text without carriage returns is given with other line
endings. If these are no line feeds it is applied as what is left of it when only its thoughts are
taken off, without the line feeds after them or the fence around it. So the same outcome or error
comes of it as with line feeds if that text is read like the unwrapped one, and the same records do
too if unwrapping takes no line break off. -/
theorem applyAuto_writeEndings (hedit : '\r' ∉ edit) (ending : LineEnding) (content : Text)
    (settings : Value) :
    (ending ≠ .lf → applyAuto content (edit.writeEndings ending.text) settings =
      applyDetected content (Wrapping.keepingBreaks edit) settings) ∧
    (ReadAlike (Wrapping.keepingBreaks edit) (Wrapping.unwrap edit) →
      (applyAuto content (edit.writeEndings ending.text) settings).value =
        (applyAuto content edit settings).value) ∧
    (Wrapping.TakesNoBreak edit →
      applyAuto content (edit.writeEndings ending.text) settings =
        applyAuto content edit settings) := by
  refine ⟨fun hending => applyAuto_eq_applyDetected hedit hending content settings,
    fun hread => applyAuto_of_readAlike hedit hread ending content settings, fun hbreak => ?_⟩
  by_cases hending : ending = .lf
  · rw [hending, LineEnding.text, Text.writeEndings_lineFeed]
  · rw [applyAuto_eq_applyDetected hedit hending, hbreak.keepingBreaks_eq]
    rfl

/-- A diff after a remark with a thought in it. -/
def remarkedDiff : Text := "So <think>\n</think>it is:\n@@ -1 +1 @@\n-a\n+b\n".toList

/-- A diff whose hunk has as many lines as its header says. -/
def countedDiff : Text := "@@ -1 +1 @@\n-a\n+b\n".toList

/-- The diff inside a fence, after a thought with a line feed after it. -/
def wrappedDiff : Text :=
  Wrapping.thought "b?".toList ++ Wrapping.fenced "diff".toList countedDiff ['\n']

/-- The wrapping does not change what is read. -/
theorem readAlike_wrappedDiff :
    ReadAlike (Wrapping.keepingBreaks wrappedDiff) (Wrapping.unwrap wrappedDiff) := by
  have hcomplete : IsComplete countedDiff := by
    have hdetect : Dialect.detect countedDiff = .ok .hunks := rfl
    refine ⟨fun h => ?_, fun _ => ⟨_, rfl, ?_⟩⟩
    · rw [hdetect] at h
      cases h
    · rintro h ⟨⟩
      exact ⟨rfl, rfl⟩
  have hends : countedDiff.endsLine = true := by decide
  have hfence : ¬ Wrapping.fence <:+: countedDiff := by decide
  have hopen : ¬ Wrapping.openTag <:+: countedDiff := by decide
  have hinfo : ∀ c ∈ "diff".toList, Text.isWordChar c = true ∨ c = '-' :=
    Wrapping.forall_info_of_all (by decide +kernel)
  have htail : Text.isBlank ['\n'] = true := by decide
  have hclose : ¬ Wrapping.closeTag <:+: "b?".toList := by decide
  exact Wrapping.readAlike_wrapped hends hfence hopen hinfo htail (by decide) hclose hcomplete
    wrappedDiff (List.mem_of_getElem? (i := 3) rfl)

/-- Both diffs are applied as they are with carriage returns before their line feeds. -/
theorem applyAuto_remarkedDiff :
    (('\r' ∉ remarkedDiff ∧ Wrapping.TakesNoBreak remarkedDiff) ∧
      applyAuto "a\n".toList (remarkedDiff.writeEndings LineEnding.crlf.text) .null =
        applyAuto "a\n".toList remarkedDiff .null) ∧
    ('\r' ∉ wrappedDiff ∧
      ReadAlike (Wrapping.keepingBreaks wrappedDiff) (Wrapping.unwrap wrappedDiff)) ∧
    (applyAuto "a\n".toList (wrappedDiff.writeEndings LineEnding.crlf.text) .null).value =
      (applyAuto "a\n".toList wrappedDiff .null).value := by
  have hedit : '\r' ∉ remarkedDiff := by decide
  have hthought : Wrapping.NoBreakAfterThought remarkedDiff := by
    intro rest tail hrest htail hhead
    have hclose : ¬ Wrapping.closeTag ++ ['\n'] <:+: remarkedDiff := by decide
    obtain ⟨front, rfl⟩ := Text.eq_append_of_afterFirst htail
    obtain ⟨t, rfl⟩ := List.head?_eq_some_iff.mp hhead
    refine hclose (List.IsInfix.trans ⟨Wrapping.openTag ++ front, t, ?_⟩ hrest.isInfix)
    simp only [List.append_assoc, List.cons_append, List.nil_append]
  have hfence : Wrapping.insideFence? (Wrapping.withoutThoughts remarkedDiff) = none := by
    refine Wrapping.insideFence?_of_not_infix fun h => ?_
    have hmem : '\x60' ∈ remarkedDiff :=
      (Wrapping.withoutThoughts_sublist _).subset (h.subset (by decide))
    exact absurd hmem (by decide)
  have hbreak : Wrapping.TakesNoBreak remarkedDiff := ⟨hthought, hfence⟩
  have hedit' : '\r' ∉ wrappedDiff := by decide
  have hread := readAlike_wrappedDiff
  exact ⟨⟨⟨hedit, hbreak⟩, (applyAuto_writeEndings hedit .crlf _ _).2.2 hbreak⟩, ⟨hedit', hread⟩,
    (applyAuto_writeEndings hedit' .crlf _ _).2.1 hread⟩

/-- A diff inside a fence, with counts that are too high. -/
def fencedDiff : Text :=
  Wrapping.fenced "diff".toList "@@ -1,2 +1,2 @@\n-a\n+b\n".toList ['\n']

/-- The diff is applied with line feeds. With carriage returns before them its fence stays, whose
last line is then read as context of the hunk and not found in the document. -/
theorem applyAuto_fencedDiff :
    '\r' ∉ fencedDiff ∧
    (applyAuto "a\n".toList fencedDiff .null).value.map Outcome.content = .ok "b\n".toList ∧
    (applyAuto "a\n".toList (fencedDiff.writeEndings LineEnding.crlf.text) .null).value.map
      Outcome.content = .ok "a\n".toList := by
  refine ⟨by decide, ?_, ?_⟩
  · have hunwrap : Wrapping.unwrap fencedDiff = "@@ -1,2 +1,2 @@\n-a\n+b\n".toList :=
      Wrapping.unwrap_fenced rfl (by decide) (by decide)
        (Wrapping.forall_info_of_all (by decide +kernel)) (by decide)
    rw [applyAuto, hunwrap]
    rfl
  · have hfence : Wrapping.unwrap (fencedDiff.writeEndings LineEnding.crlf.text) =
        fencedDiff.writeEndings LineEnding.crlf.text := by
      rw [Wrapping.unwrap, Wrapping.withoutThoughts_of_not_infix (by decide),
        Wrapping.insideFence?_writeEndings (by decide)]
    rw [applyAuto, hfence]
    rfl

end Edit

end Emend
