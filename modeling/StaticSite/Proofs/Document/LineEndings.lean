import StaticSite.Document.Parser
import StaticSite.Proofs.Document.Fences

/-!
# Line endings

A document in which each newline is written with a carriage return in front is cut in the same places. Its block
differs in the carriage returns alone, and its body has the same lines, so the same declarations and the same
Markdown.
-/
namespace StaticSite

namespace Text

variable {part t u : Text} {c : Char}

/-- The text with a carriage return in front of each newline. -/
def withReturns (t : Text) : Text := t.flatMap fun c => if c = '\n' then ['\r', '\n'] else [c]

/-- The text without its carriage returns. -/
def withoutReturns (t : Text) : Text := t.filter (· != '\r')

theorem withReturns_append (t u : Text) : withReturns (t ++ u) = withReturns t ++ withReturns u :=
  List.flatMap_append

theorem withReturns_newline (t : Text) : withReturns ('\n' :: t) = '\r' :: '\n' :: withReturns t := rfl

theorem withReturns_cons (hc : c ≠ '\n') (t : Text) : withReturns (c :: t) = c :: withReturns t := by
  simp [withReturns, hc]

theorem withReturns_of_not_mem (h : '\n' ∉ t) : withReturns t = t := by
  induction t with
  | nil => rfl
  | cons c t ih =>
    rw [List.mem_cons, not_or] at h
    rw [withReturns_cons (Ne.symm h.1), ih h.2]

theorem withoutReturns_withReturns (h : '\r' ∉ t) : withoutReturns (withReturns t) = t := by
  induction t with
  | nil => rfl
  | cons c t ih =>
    rw [List.mem_cons, not_or] at h
    have hrest : (withReturns t).filter (· != '\r') = t := ih h.2
    by_cases hc : c = '\n'
    · subst hc
      simp [withReturns_newline, withoutReturns, hrest]
    · simp [withReturns_cons hc, withoutReturns, Ne.symm h.1, hrest]

theorem withoutReturns_append (t u : Text) : withoutReturns (t ++ u) = withoutReturns t ++ withoutReturns u :=
  List.filter_append ..

theorem dropWhile_withReturns {p : Char → Bool} (hreturn : p '\r' = true) (hnewline : p '\n' = true) (t : Text) :
    (withReturns t).dropWhile p = withReturns (t.dropWhile p) := by
  induction t with
  | nil => rfl
  | cons c t ih =>
    by_cases hc : c = '\n'
    · subst hc
      simp [withReturns_newline, hreturn, hnewline, ih]
    · cases hp : p c with
      | true => simp [withReturns_cons hc, hp, ih]
      | false => simp [withReturns_cons hc, hp]

theorem after?_withReturns (hreturn : '\r' ∉ part) (hnewline : '\n' ∉ part) (t : Text) :
    after? part (withReturns t) = (after? part t).map withReturns := by
  induction part generalizing t with
  | nil => rfl
  | cons d part ih =>
    rw [List.mem_cons, not_or] at hreturn hnewline
    cases t with
    | nil => rfl
    | cons c t =>
      by_cases hc : c = '\n'
      · subst hc
        simp [withReturns_newline, after?, Ne.symm hreturn.1, Ne.symm hnewline.1]
      · rw [withReturns_cons hc, after?, after?]
        split_ifs
        · exact ih hreturn.2 hnewline.2 t
        · rfl

/-- A part behind a newline is found behind the carriage return and the newline. -/
theorem cut?_withReturns (hreturn : '\r' ∉ part) (hnewline : '\n' ∉ part) (t : Text) :
    cut? ('\n' :: part) (withReturns t) =
      (cut? ('\n' :: part) t).map fun (left, right) => (withReturns left ++ ['\r'], withReturns right) := by
  induction t with
  | nil => rfl
  | cons c t ih =>
    by_cases hc : c = '\n'
    · subst hc
      have hskip : after? ('\n' :: part) ('\r' :: '\n' :: withReturns t) = none := rfl
      have hhere (u : Text) : after? ('\n' :: part) ('\n' :: u) = after? part u := if_pos rfl
      rw [withReturns_newline, cut?, hskip, cut?, cut?, hhere, hhere, after?_withReturns hreturn hnewline, ih]
      cases after? part t with
      | some rest => rfl
      | none => cases cut? ('\n' :: part) t <;> rfl
    · have hskip (u : Text) : after? ('\n' :: part) (c :: u) = none := if_neg (Ne.symm hc)
      rw [withReturns_cons hc, cut?, cut?, hskip, hskip, ih]
      cases cut? ('\n' :: part) t with
      | none => rfl
      | some halves => simp [withReturns_cons hc]

/-- The carriage returns are in no line. -/
theorem lines_withReturns (h : '\r' ∉ t) : lines (withReturns t) = lines t := by
  have hpieces : ∀ piece ∈ splitOn '\n' t, '\n' ∉ piece ∧ '\r' ∉ piece := fun piece hpiece =>
    ⟨fun hmem => by simpa using not_of_mem_splitBy hpiece '\n' hmem, fun hmem => h (mem_of_mem_splitBy hpiece hmem)⟩
  rw [← join_splitOn '\n' t]
  generalize splitOn '\n' t = pieces at hpieces
  induction pieces with
  | nil => rfl
  | cons piece pieces ih =>
    obtain ⟨⟨hnewline, hreturn⟩, hrest⟩ := List.forall_mem_cons.mp hpieces
    cases pieces with
    | nil => exact congrArg lines (withReturns_of_not_mem hnewline)
    | cons next pieces =>
      have hjoin : join ['\n'] (piece :: next :: pieces) = piece ++ '\n' :: join ['\n'] (next :: pieces) := by
        simp [join]
      have hwith : withReturns (piece ++ '\n' :: join ['\n'] (next :: pieces)) =
          (piece ++ ['\r']) ++ '\n' :: withReturns (join ['\n'] (next :: pieces)) := by
        rw [withReturns_append, withReturns_of_not_mem hnewline, withReturns_newline]
        simp
      have hend : before? ['\r'] piece = none :=
        before?_of_getLast? fun hlast => hreturn (List.mem_of_getLast? hlast)
      rw [hjoin, hwith, lines_append_cons (by simp [hnewline]), lines_append_cons hnewline, before?_append, hend,
        ih hrest]
      rfl

end Text

namespace Fences

variable {t : Text} {c : Char}

theorem startsLineEnd_cons (hnewline : c ≠ '\n') (hreturn : c ≠ '\r') (t : Text) :
    startsLineEnd (c :: t) = false := by
  unfold startsLineEnd
  split
  · exact absurd (List.cons.inj ‹_›).1 hnewline
  · exact absurd (List.cons.inj ‹_›).1 hreturn
  · rfl

theorem startsLineEnd_withReturns (h : '\r' ∉ t) : startsLineEnd (Text.withReturns t) = startsLineEnd t := by
  cases t with
  | nil => rfl
  | cons c t =>
    by_cases hc : c = '\n'
    · rw [hc]
      rfl
    · have hreturn : c ≠ '\r' := fun heq => h (heq ▸ List.mem_cons_self)
      rw [Text.withReturns_cons hc, startsLineEnd_cons hc hreturn, startsLineEnd_cons hc hreturn]

theorem trimLineEnds_withReturns (t : Text) : trimLineEnds (Text.withReturns t) = Text.withReturns (trimLineEnds t) :=
  Text.dropWhile_withReturns rfl rfl t

theorem withoutReturns_trimLineEnds (t : Text) :
    Text.withoutReturns (trimLineEnds t) = trimLineEnds (Text.withoutReturns t) := by
  induction t with
  | nil => rfl
  | cons c t ih =>
    have hrest : Text.withoutReturns (t.dropWhile isLineEnd) = (Text.withoutReturns t).dropWhile isLineEnd := ih
    by_cases hreturn : c = '\r'
    · subst hreturn
      exact ih
    · have hcons (u : Text) : Text.withoutReturns (c :: u) = c :: Text.withoutReturns u :=
        List.filter_cons_of_pos (by simpa using hreturn)
      cases hc : isLineEnd c with
      | true => simp [trimLineEnds, hcons, hc, hrest]
      | false => simp [trimLineEnds, hcons, hc]

theorem afterFence_withReturns (t : Text) : afterFence (Text.withReturns t) = Text.withReturns (afterFence t) := by
  induction t with
  | nil => rfl
  | cons c t ih =>
    by_cases hc : c = '\n'
    · rw [hc]
      exact trimLineEnds_withReturns t
    · have hskip (u : Text) : afterFence (c :: u) = afterFence u := by simp [afterFence, hc]
      rw [Text.withReturns_cons hc, hskip, hskip, ih]

/-- The closing fence is found in the same place, and the block differs in carriage returns. -/
theorem closing?_withReturns (h : '\r' ∉ t) :
    (closing? (Text.withReturns t)).map (fun (block, rest) => (Text.withoutReturns block, rest)) =
      (closing? t).map fun (block, rest) => (block, Text.withReturns rest) := by
  rw [closing?, closing?, trimLineEnds_withReturns, Text.after?_withReturns (by decide) (by decide)]
  cases Text.after? fence (trimLineEnds t) with
  | some rest => rfl
  | none =>
    have hpart : "\n---".toList = '\n' :: fence := rfl
    have hcut := @Text.cut?_withReturns fence (by decide) (by decide) t
    simp only [hpart, hcut]
    cases hclosing : Text.cut? ('\n' :: fence) t with
    | none => rfl
    | some halves =>
      obtain ⟨between, rest⟩ := halves
      have hbetween : '\r' ∉ between := fun hmem => h (by simp [Text.eq_of_cut? hclosing, hmem])
      have hblock : Text.withoutReturns (trimLineEnds (Text.withReturns between ++ ['\r'])) = trimLineEnds between := by
        rw [withoutReturns_trimLineEnds, Text.withoutReturns_append, Text.withoutReturns_withReturns hbetween]
        simp [Text.withoutReturns]
      exact congrArg (fun block => some (block, Text.withReturns rest)) hblock

/-- A document is cut in the same places, with carriage returns and without. -/
theorem cut_withReturns {source : Text} (h : '\r' ∉ source) :
    (cut (Text.withReturns source)).frontMatter.map Text.withoutReturns = (cut source).frontMatter ∧
      (cut (Text.withReturns source)).body = Text.withReturns (cut source).body := by
  have htrim : Text.trimStart (Text.withReturns source) = Text.withReturns (Text.trimStart source) :=
    Text.dropWhile_withReturns rfl rfl source
  unfold cut
  rw [htrim, Text.after?_withReturns (by decide) (by decide)]
  cases hfence : Text.after? "---" (Text.trimStart source) with
  | none => exact ⟨rfl, rfl⟩
  | some rest =>
    have hrest : '\r' ∉ rest := by
      have hsuffix : Text.trimStart source <:+ source := List.dropWhile_suffix _
      rw [Text.eq_append_of_after? hfence] at hsuffix
      exact fun hmem => h (hsuffix.subset (List.mem_append_right _ hmem))
    have hclosing := closing?_withReturns hrest
    dsimp only [Option.map_some]
    rw [startsLineEnd_withReturns hrest]
    split_ifs
    · cases hplain : closing? rest with
      | none =>
        rw [hplain] at hclosing
        rw [Option.map_eq_none_iff.mp hclosing]
        exact ⟨rfl, rfl⟩
      | some found =>
        rw [hplain] at hclosing
        obtain ⟨found', hfound, hpair⟩ := Option.map_eq_some_iff.mp hclosing
        obtain ⟨hblock, hbody⟩ := Prod.mk.inj hpair
        rw [hfound]
        refine ⟨congrArg some hblock, ?_⟩
        dsimp only
        rw [hbody, afterFence_withReturns]
    · exact ⟨rfl, rfl⟩

end Fences

namespace Document

/-- A document that is written with carriage returns has a block just when it has one without them, which is the
same apart from the carriage returns; and its body has the same segments, so that what is read below the block is
the same. -/
theorem same_segments_withReturns {source : Text} (h : '\r' ∉ source) :
    (Fences.cut (Text.withReturns source)).frontMatter.map Text.withoutReturns = (Fences.cut source).frontMatter ∧
    Segment.ofBody (Fences.cut (Text.withReturns source)).body = Segment.ofBody (Fences.cut source).body ∧
    ∃ nodes, parse source = (Fences.cut source).frontMatter.toList.map .frontMatter ++ nodes ∧
      parse (Text.withReturns source) =
        (Fences.cut (Text.withReturns source)).frontMatter.toList.map .frontMatter ++ nodes := by
  obtain ⟨hblock, hbody⟩ := Fences.cut_withReturns h
  have hreturn : '\r' ∉ (Fences.cut source).body := fun hmem => h ((Fences.infix_cut source).2.subset hmem)
  have hsegments : Segment.ofBody (Fences.cut (Text.withReturns source)).body =
      Segment.ofBody (Fences.cut source).body := by
    rw [hbody, Segment.ofBody, Segment.ofBody, Text.lines_withReturns hreturn]
  exact ⟨hblock, hsegments, _, rfl, by rw [parse, hsegments]⟩

namespace TwoLineEndings

/-- A document with a block, declarations, a fence of code and no newline at its end. -/
def source : Text := "\n---\n\ntitle: A\n---\n\nimport A from './a'\n\n```\nimport b\n```\nText"

theorem segments_kept :
    '\r' ∉ source ∧ (Fences.cut (Text.withReturns source)).frontMatter = some "title: A\r".toList ∧
      (Fences.cut source).frontMatter = some "title: A".toList ∧
      Segment.ofBody (Fences.cut (Text.withReturns source)).body = Segment.ofBody (Fences.cut source).body := by
  have hsource : '\r' ∉ source := by decide
  exact ⟨hsource, by decide, by decide, (same_segments_withReturns hsource).2.1⟩

end TwoLineEndings

end Document

end StaticSite
