import Mathlib.Data.List.Infix
import StaticSite.Document.Segment
import StaticSite.Proofs.Document.Markers

/-!
# Lines of a body in its segments

A body is read line by line. Of the lines read so far, some are in segments that are finished, one run after the
other, and the rest are in the segment under way. So every line that is not blank gets into one segment, in order,
and a block of declarations is a run of such lines that begins the body or stands behind a blank line.
-/
namespace StaticSite

namespace Text

variable {t line : Text} {ls : List Text}

/-- Lines, each of them ended by a newline. -/
def unlines (ls : List Text) : Text := ls.flatMap fun line => line ++ ['\n']

theorem unlines_concat (ls : List Text) (line : Text) : unlines (ls ++ [line]) = unlines ls ++ line ++ ['\n'] := by
  simp [unlines]

theorem not_mem_of_mem_lines (h : line ∈ lines t) : '\n' ∉ line := by
  obtain ⟨piece, hpiece, hline⟩ := exists_of_mem_lines h
  intro hnewline
  simpa using not_of_mem_splitBy hpiece '\n' (hline.subset hnewline)

theorem splitOn_join_lines (hne : ls ≠ []) (h : ∀ line ∈ ls, '\n' ∉ line) : splitOn '\n' (join "\n" ls) = ls := by
  rw [join_eq, splitOn_eq]
  exact List.splitOn_intercalate '\n' h hne

theorem splitOn_unlines (h : ∀ line ∈ ls, '\n' ∉ line) : splitOn '\n' (unlines ls) = ls ++ [[]] := by
  induction ls with
  | nil => rfl
  | cons line ls ih =>
    obtain ⟨hline, hls⟩ := List.forall_mem_cons.mp h
    have hcons : unlines (line :: ls) = line ++ '\n' :: unlines ls := by simp [unlines]
    rw [hcons, splitOn_append_cons, splitOn_of_not_mem hline, ih hls]
    rfl

theorem prefix_join_cons (separator t : Text) (ts : List Text) : t <+: join separator (t :: ts) := by
  cases ts with
  | nil => exact List.prefix_refl t
  | cons u ts =>
    rw [join, List.append_assoc]
    exact List.prefix_append _ _

theorem join_concat (hne : ls ≠ []) (line : Text) : join "\n" (ls ++ [line]) = join "\n" ls ++ '\n' :: line := by
  induction ls with
  | nil => exact absurd rfl hne
  | cons first ls ih =>
    cases ls with
    | nil => simp [join]
    | cons second ls =>
      have htail := ih (List.cons_ne_nil second ls)
      simp only [List.cons_append, join] at htail ⊢
      rw [htail]
      simp only [List.append_assoc]

theorem allBlank_cons_of_neg {c : Char} (hc : isBlank c = false) : allBlank (c :: t) = false := by
  rw [allBlank, List.all_cons, hc, Bool.false_and]

/-- Lines make blank text just when all of them are blank. -/
theorem allBlank_unlines : allBlank (unlines ls) = true ↔ ∀ line ∈ ls, allBlank line = true := by
  induction ls with
  | nil => simp [unlines, allBlank]
  | cons line ls ih =>
    have hcons : unlines (line :: ls) = line ++ '\n' :: unlines ls := by simp [unlines]
    have hnewline : isBlank '\n' = true := by decide
    rw [hcons, List.forall_mem_cons, ← ih]
    simp only [allBlank, List.all_append, List.all_cons, hnewline, Bool.true_and, Bool.and_eq_true]

end Text

namespace Segment

/-! ## What a line does -/

namespace Cutter

variable {c : Cutter} {block line : Text}

theorem line_of_filled (hblock : c.block = some block) (hline : Text.allBlank line = false) :
    c.line line = { c with block := some (block ++ '\n' :: line) } := by
  simp [Cutter.line, hblock, hline]

theorem line_of_blank (hblock : c.block = some block) (hline : Text.allBlank line = true) :
    c.line line =
      { c with segments := c.segments ++ [.declarations block], block := none, paragraphStart := true } := by
  simp [Cutter.line, hblock, hline]

theorem line_of_starts (hblock : c.block = none) (hstarts : (c.fenceAfter line).2 = true) :
    c.line line = { c.endMarkdown with block := some line } := by
  simp [Cutter.line, hblock, hstarts]

theorem line_of_prose (hblock : c.block = none) (hstarts : (c.fenceAfter line).2 = false) :
    c.line line =
      { c with
        fence := (c.fenceAfter line).1, markdown := c.markdown ++ line ++ ['\n'],
        paragraphStart := (c.fenceAfter line).1.isNone && Text.allBlank line } := by
  simp [Cutter.line, hblock, hstarts]

/-- A line that starts a block stands at the start of a paragraph, outside all fences. -/
theorem of_starts (h : (c.fenceAfter line).2 = true) :
    c.fence = none ∧ c.paragraphStart = true ∧ startsDeclaration line = true := by
  unfold fenceAfter at h
  dsimp only at h
  split at h
  · cases h
  · rename_i hfence
    split_ifs at h
    rw [Bool.and_eq_true] at h
    exact ⟨hfence, h⟩

/-- The cutting of a body after some of its lines. -/
def afterLines (ls : List Text) : Cutter := ls.foldl Cutter.line Cutter.start

theorem afterLines_concat (ls : List Text) (line : Text) : afterLines (ls ++ [line]) = (afterLines ls).line line := by
  simp [afterLines]

end Cutter

/-! ## Blocks of declarations -/

variable {above ls read : List Text} {segments : List Segment} {line : Text} {c : Cutter}

/-- Nothing is above, or the last line above is blank. -/
def Fresh (above : List Text) : Prop := ∀ line ∈ above.getLast?, Text.allBlank line = true

/-- The lines of a block of declarations. -/
structure IsBlock (ls : List Text) : Prop where
  starts : ls.head?.any Cutter.startsDeclaration = true
  filled : ∀ line ∈ ls, Text.allBlank line = false

theorem IsBlock.ne_nil (h : IsBlock ls) : ls ≠ [] := by
  rintro rfl
  exact absurd h.starts (by decide)

theorem Fresh.eq_nil_or (h : Fresh above) :
    above = [] ∨ ∃ line, above.getLast? = some line ∧ Text.allBlank line = true := by
  cases hlast : above.getLast? with
  | none => exact .inl (List.getLast?_eq_none_iff.mp hlast)
  | some line => exact .inr ⟨line, rfl, h line hlast⟩

theorem startsDeclaration_iff :
    Cutter.startsDeclaration line = true ↔ "import ".toList <+: line ∨ "export ".toList <+: line := by
  rw [Cutter.startsDeclaration, Bool.or_eq_true, Text.startsWith_iff, Text.startsWith_iff]

/-- A block starts like its first line. -/
theorem IsBlock.prefix_source {block : Text} (h : IsBlock (Text.splitOn '\n' block)) :
    "import ".toList <+: block ∨ "export ".toList <+: block := by
  obtain ⟨first, rest, hsplit⟩ := List.exists_cons_of_ne_nil h.ne_nil
  have hstarts := h.starts
  have hfirst : first <+: block := by
    rw [← Text.join_splitOn '\n' block, hsplit]
    exact Text.prefix_join_cons ['\n'] first rest
  rw [hsplit] at hstarts
  exact (startsDeclaration_iff.mp hstarts).imp (·.trans hfirst) (·.trans hfirst)

/-- A line that starts a block is not blank. -/
theorem not_blank_of_startsDeclaration (h : Cutter.startsDeclaration line = true) : Text.allBlank line = false := by
  rcases startsDeclaration_iff.mp h with ⟨rest, rfl⟩ | ⟨rest, rfl⟩
  · exact Text.allBlank_cons_of_neg (by decide)
  · exact Text.allBlank_cons_of_neg (by decide)

/-- A block that is read behind some lines: as soon as it has begun, it is open. -/
structure ReadBlock (above ls : List Text) : Prop extends IsBlock ls where
  fresh : Fresh above
  open' : ∀ part, part ≠ [] → part <+: ls → (Cutter.afterLines (above ++ part)).block.isSome = true

theorem ReadBlock.single (hfresh : Fresh above) (hstarts : Cutter.startsDeclaration line = true)
    (hopen : (Cutter.afterLines (above ++ [line])).block.isSome = true) : ReadBlock above [line] := by
  refine ⟨⟨hstarts, List.forall_mem_singleton.mpr (not_blank_of_startsDeclaration hstarts)⟩, hfresh, ?_⟩
  intro part hne hpart
  cases part with
  | nil => exact absurd rfl hne
  | cons first part =>
    obtain ⟨rfl, hrest⟩ := List.cons_prefix_cons.mp hpart
    rw [List.prefix_nil.mp hrest]
    exact hopen

theorem ReadBlock.concat (h : ReadBlock above ls) (hline : Text.allBlank line = false)
    (hopen : (Cutter.afterLines (above ++ (ls ++ [line]))).block.isSome = true) : ReadBlock above (ls ++ [line]) := by
  obtain ⟨first, rest, rfl⟩ := List.exists_cons_of_ne_nil h.ne_nil
  refine ⟨⟨h.starts, List.forall_mem_append.mpr ⟨h.filled, List.forall_mem_singleton.mpr hline⟩⟩, h.fresh, ?_⟩
  intro part hne hpart
  rcases List.prefix_concat_iff.mp hpart with rfl | hpart
  · exact hopen
  · exact h.open' part hne hpart

/-! ## Cutting -/

/-- Lines that are cut into segments, one run of lines after the other. Only blank lines are in no segment. -/
inductive Cut : List Text → List Segment → Prop
  | nil : Cut [] []
  | blank {above ls : List Text} {segments : List Segment} (h : Cut above segments)
      (hls : ∀ line ∈ ls, Text.allBlank line = true) : Cut (above ++ ls) segments
  | markdown {above ls : List Text} {segments : List Segment} (h : Cut above segments)
      (hls : ∃ line ∈ ls, Text.allBlank line = false) :
      Cut (above ++ ls) (segments ++ [.markdown (Text.unlines ls)])
  | declarations {above ls : List Text} {segments : List Segment} (h : Cut above segments) (hls : ReadBlock above ls) :
      Cut (above ++ ls) (segments ++ [.declarations (Text.join "\n" ls)])

/-- The Markdown collected is cut off, unless it is blank. -/
theorem Cut.endMarkdown (h : Cut above c.segments) (hmarkdown : c.markdown = Text.unlines ls) :
    Cut (above ++ ls) c.endMarkdown.segments := by
  unfold Cutter.endMarkdown
  split_ifs with hblank
  · rw [hmarkdown, Text.allBlank_unlines] at hblank
    exact .blank h hblank
  · rw [hmarkdown, Text.allBlank_unlines] at hblank
    obtain ⟨line, hline, hfilled⟩ : ∃ line ∈ ls, Text.allBlank line = false := by simpa using hblank
    rw [hmarkdown]
    exact .markdown h ⟨line, hline, hfilled⟩

/-- What the cutting holds after some lines: some are cut off, and the rest is Markdown or a block under way. -/
inductive Holds : List Text → Cutter → Prop
  | prose {above ls : List Text} {c : Cutter} (hcut : Cut above c.segments) (hblock : c.block = none)
      (hmarkdown : c.markdown = Text.unlines ls) (hfresh : c.paragraphStart = true → Fresh (above ++ ls)) :
      Holds (above ++ ls) c
  | block {above ls : List Text} {c : Cutter} (hcut : Cut above c.segments)
      (hblock : c.block = some (Text.join "\n" ls)) (hmarkdown : c.markdown = []) (hls : ReadBlock above ls) :
      Holds (above ++ ls) c

theorem fresh_concat (h : Text.allBlank line = true) (read : List Text) : Fresh (read ++ [line]) := by
  simpa [Fresh] using h

theorem holds_line (h : Holds read (Cutter.afterLines read)) (line : Text) :
    Holds (read ++ [line]) (Cutter.afterLines (read ++ [line])) := by
  have hafter := Cutter.afterLines_concat read line
  rw [hafter]
  generalize Cutter.afterLines read = c at h hafter
  cases h with
  | @prose above ls c hcut hblock hmarkdown hfresh =>
    by_cases hstarts : (c.fenceAfter line).2 = true
    · obtain ⟨-, hstart, hdeclaration⟩ := Cutter.of_starts hstarts
      rw [Cutter.line_of_starts hblock hstarts] at hafter ⊢
      exact .block (hcut.endMarkdown hmarkdown) rfl rfl (.single (hfresh hstart) hdeclaration (by rw [hafter]; rfl))
    · rw [Cutter.line_of_prose hblock (by simpa using hstarts), List.append_assoc]
      refine .prose hcut hblock ?_ fun hstart => ?_
      · rw [Text.unlines_concat, hmarkdown]
      · rw [Bool.and_eq_true] at hstart
        rw [← List.append_assoc]
        exact fresh_concat hstart.2 _
  | @block above ls c hcut hblock hmarkdown hls =>
    by_cases hblank : Text.allBlank line = true
    · -- the blank line is in no segment
      rw [Cutter.line_of_blank hblock hblank]
      have hcut : Cut (above ++ ls ++ [line]) (c.segments ++ [.declarations (Text.join "\n" ls)]) :=
        .blank (.declarations hcut hls) (List.forall_mem_singleton.mpr hblank)
      rw [← List.append_nil (above ++ ls ++ [line])]
      refine .prose hcut rfl hmarkdown fun _ => ?_
      rw [List.append_nil]
      exact fresh_concat hblank _
    · have hfilled : Text.allBlank line = false := by simpa using hblank
      have hjoin := Text.join_concat hls.ne_nil line
      rw [Cutter.line_of_filled hblock hfilled, List.append_assoc] at hafter ⊢
      refine .block hcut (congrArg some hjoin.symm) hmarkdown (hls.concat hfilled ?_)
      rw [hafter]
      rfl

theorem holds_afterLines (read : List Text) : Holds read (Cutter.afterLines read) := by
  induction read using List.reverseRecOn with
  | nil => exact @Holds.prose [] [] Cutter.start .nil rfl rfl fun _ => nofun
  | append_singleton read line ih => exact holds_line ih line

/-- The lines of a body are cut into its segments. -/
theorem cut_ofBody (body : Text) : Cut (Text.lines body) (ofBody body) := by
  have hfinish {read : List Text} {c : Cutter} (h : Holds read c) : Cut read c.finish := by
    cases h with
    | prose hcut hblock hmarkdown =>
      rw [Cutter.finish, hblock]
      exact hcut.endMarkdown hmarkdown
    | @block above ls c hcut hblock hmarkdown hls =>
      rw [Cutter.finish, hblock]
      rw [← List.append_nil (above ++ ls)]
      exact (Cut.declarations hcut hls).endMarkdown hmarkdown
  exact hfinish (holds_afterLines (Text.lines body))

/-! ## Reading the segments back -/

/-- The text of a segment. -/
def source : Segment → Text
  | declarations source => source
  | markdown source => source

/-- The lines of a segment, which end in newlines alone. -/
def lines (s : Segment) : List Text := Text.splitOn '\n' s.source

/-- The lines that are not blank. -/
def filled (ls : List Text) : List Text := ls.filter fun line => !Text.allBlank line

theorem filled_append (ls ls' : List Text) : filled (ls ++ ls') = filled ls ++ filled ls' := List.filter_append ..

theorem filled_of_blank (h : ∀ line ∈ ls, Text.allBlank line = true) : filled ls = [] := by
  simpa [filled] using h

/-- The lines that are not blank are in the segments, in order. -/
theorem Cut.filled_lines (h : Cut read segments) (hread : ∀ line ∈ read, '\n' ∉ line) :
    filled (segments.flatMap lines) = filled read := by
  induction h with
  | nil => rfl
  | blank _ hls ih =>
    obtain ⟨habove, -⟩ := List.forall_mem_append.mp hread
    rw [ih habove, filled_append, filled_of_blank hls, List.append_nil]
  | @markdown above ls segments _ _ ih =>
    obtain ⟨habove, hls⟩ := List.forall_mem_append.mp hread
    have hlines : lines (.markdown (Text.unlines ls)) = ls ++ [[]] := Text.splitOn_unlines hls
    rw [List.flatMap_append, filled_append, ih habove, List.flatMap_singleton, hlines, filled_append, filled_append]
    simp [filled, Text.allBlank]
  | @declarations above ls segments _ hblock ih =>
    obtain ⟨habove, hls⟩ := List.forall_mem_append.mp hread
    have hlines : lines (.declarations (Text.join "\n" ls)) = ls := Text.splitOn_join_lines hblock.ne_nil hls
    rw [List.flatMap_append, filled_append, ih habove, List.flatMap_singleton, hlines, filled_append]

/-- A segment is the last one, or stands before the last one. -/
theorem concat_eq_append_cons {before after : List Segment} {s last : Segment}
    (h : segments ++ [last] = before ++ s :: after) :
    (after = [] ∧ segments = before ∧ last = s) ∨
      ∃ rest, after = rest ++ [last] ∧ segments = before ++ s :: rest := by
  rcases List.eq_nil_or_concat' after with rfl | ⟨rest, other, rfl⟩
  · exact .inl ⟨rfl, List.append_singleton_inj.mp h⟩
  · rw [← List.cons_append, ← List.append_assoc] at h
    obtain ⟨rfl, rfl⟩ := List.append_singleton_inj.mp h
    exact .inr ⟨rest, rfl, rfl⟩

/-- Where a block of declarations is read. -/
theorem Cut.exists_block (h : Cut read segments) (hread : ∀ line ∈ read, '\n' ∉ line) {before after : List Segment}
    {block : Text} (hsegments : segments = before ++ .declarations block :: after) :
    ∃ above below, read = above ++ Text.splitOn '\n' block ++ below ∧ Cut above before ∧
      ReadBlock above (Text.splitOn '\n' block) := by
  induction h generalizing after with
  | nil => simp at hsegments
  | @blank above ls segments _ _ ih =>
    obtain ⟨habove, -⟩ := List.forall_mem_append.mp hread
    obtain ⟨above', below, rfl, hcut, hblock⟩ := ih habove hsegments
    exact ⟨above', below ++ ls, by rw [List.append_assoc], hcut, hblock⟩
  | @markdown above ls segments _ _ ih =>
    obtain ⟨habove, -⟩ := List.forall_mem_append.mp hread
    rcases concat_eq_append_cons hsegments with ⟨-, -, hlast⟩ | ⟨rest, -, hrest⟩
    · cases hlast
    · obtain ⟨above', below, rfl, hcut, hblock⟩ := ih habove hrest
      exact ⟨above', below ++ ls, by rw [List.append_assoc], hcut, hblock⟩
  | @declarations above ls segments hcut hblock ih =>
    obtain ⟨habove, hls⟩ := List.forall_mem_append.mp hread
    rcases concat_eq_append_cons hsegments with ⟨-, rfl, hlast⟩ | ⟨rest, -, hrest⟩
    · obtain rfl := declarations.inj hlast
      rw [Text.splitOn_join_lines hblock.ne_nil hls]
      exact ⟨above, [], (List.append_nil _).symm, hcut, hblock⟩
    · obtain ⟨above', below, rfl, hcut, hblock⟩ := ih habove hrest
      exact ⟨above', below ++ ls, by rw [List.append_assoc], hcut, hblock⟩

theorem Cut.not_blank (h : Cut read segments) {t : Text} (ht : .markdown t ∈ segments) : Text.allBlank t = false := by
  induction h with
  | nil => cases ht
  | blank _ _ ih => exact ih ht
  | @markdown above ls segments _ hls ih =>
    rcases List.mem_append.mp ht with ht | ht
    · exact ih ht
    · obtain rfl : t = Text.unlines ls := by simpa using ht
      rw [← Bool.not_eq_true, Text.allBlank_unlines]
      obtain ⟨line, hline, hfilled⟩ := hls
      exact fun hall => by simp [hall line hline] at hfilled
  | @declarations above ls segments _ _ ih =>
    rcases List.mem_append.mp ht with ht | ht
    · exact ih ht
    · simp at ht

/-- The segments of a body lose, repeat and reorder none of its lines, blank lines apart. Every block of declarations
is a run of lines, none of them blank, that starts with a declaration and is the first or behind a blank line. No
Markdown is blank. -/
theorem ofBody_keeps_lines (body : Text) :
    filled ((ofBody body).flatMap lines) = filled (Text.lines body) ∧
    (∀ before block after, ofBody body = before ++ .declarations block :: after →
      ("import ".toList <+: block ∨ "export ".toList <+: block) ∧
      (∀ line ∈ Text.splitOn '\n' block, Text.allBlank line = false) ∧
      ∃ above below, Text.lines body = above ++ Text.splitOn '\n' block ++ below ∧
        filled above = filled (before.flatMap lines) ∧
        (above = [] ∨ ∃ line, above.getLast? = some line ∧ Text.allBlank line = true)) ∧
    ∀ t, .markdown t ∈ ofBody body → Text.allBlank t = false := by
  have hcut := cut_ofBody body
  have hlines : ∀ line ∈ Text.lines body, '\n' ∉ line := fun _ => Text.not_mem_of_mem_lines
  refine ⟨hcut.filled_lines hlines, fun before block after hbody => ?_, fun t => hcut.not_blank⟩
  obtain ⟨above, below, hread, hbefore, hblock⟩ := hcut.exists_block hlines hbody
  have habove : ∀ line ∈ above, '\n' ∉ line := fun line hline => hlines line (by simp [hread, hline])
  exact ⟨hblock.prefix_source, hblock.filled, above, below, hread, (hbefore.filled_lines habove).symm,
    hblock.fresh.eq_nil_or⟩

end Segment

end StaticSite
