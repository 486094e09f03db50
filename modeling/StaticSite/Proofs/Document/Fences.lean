import StaticSite.Document.Fences
import StaticSite.Proofs.Text.Parts

/-!
# The block between fences

A document that is cut loses its fences and the line ends next to them, and nothing else. A block that holds no
fence of its own, between two fences, is cut out as it was written.
-/
namespace StaticSite.Fences

variable {t block rest : Text}

/-- The dashes of a fence. -/
abbrev fence : Text := "---".toList

/-- How a document with front matter is laid out: a margin, the opening fence alone in its line, the block, the
closing fence with the rest of its line, and the body. -/
structure Layout where
  margin : Text
  margin_blank : Text.allBlank margin = true
  /-- The line ends between the opening fence and the block. -/
  opening : Text
  opening_lineEnds : ∀ c ∈ opening, isLineEnd c = true
  opening_ne_nil : opening ≠ []
  block : Text
  /-- The line end between the block and the closing fence; an empty block needs none of its own. -/
  closing : Text
  closing_eq : closing = ['\n'] ∨ closing = [] ∧ block = []
  /-- What follows the closing fence in its line. -/
  line : Text
  line_ends : '\n' ∉ line
  /-- The line ends between the closing fence and the body. -/
  ending : Text
  ending_lineEnds : ∀ c ∈ ending, isLineEnd c = true
  body : Text
  ending_newline : ending.head? = some '\n' ∨ ending = [] ∧ body = []

/-- The document that is laid out so. -/
def Layout.text (l : Layout) : Text :=
  l.margin ++ fence ++ l.opening ++ l.block ++ l.closing ++ fence ++ l.line ++ l.ending ++ l.body

theorem takeWhile_append_trimLineEnds (t : Text) : t.takeWhile isLineEnd ++ trimLineEnds t = t :=
  List.takeWhile_append_dropWhile

theorem isLineEnd_of_mem_takeWhile {c : Char} (h : c ∈ t.takeWhile isLineEnd) : isLineEnd c = true :=
  List.mem_takeWhile_imp h

theorem startsLineEnd_of_trimLineEnds (h : startsLineEnd t = true) : t.takeWhile isLineEnd ≠ [] := by
  unfold startsLineEnd at h
  split at h
  · exact nofun
  · exact nofun
  · cases h

/-- Behind the closing fence, the rest of its line and empty lines are left out. -/
theorem exists_afterFence (t : Text) :
    ∃ line ending, t = line ++ ending ++ afterFence t ∧ '\n' ∉ line ∧ (∀ c ∈ ending, isLineEnd c = true) ∧
      (ending.head? = some '\n' ∨ ending = [] ∧ afterFence t = []) := by
  have hline : '\n' ∉ t.takeWhile (· != '\n') := fun h => by simpa using List.mem_takeWhile_imp h
  have hsplit : t.takeWhile (· != '\n') ++ t.dropWhile (· != '\n') = t := List.takeWhile_append_dropWhile
  cases hrest : t.dropWhile (· != '\n') with
  | nil =>
    have hafter : afterFence t = [] := by rw [afterFence, hrest]
    rw [hrest, List.append_nil] at hsplit
    exact ⟨_, [], by rw [hafter, List.append_nil, List.append_nil, hsplit], hline, by simp, .inr ⟨rfl, hafter⟩⟩
  | cons c rest =>
    have hafter : afterFence t = trimLineEnds rest := by rw [afterFence, hrest]
    have hc : c = '\n' := by
      have hhead := List.head?_dropWhile_not (· != '\n') t
      simpa [hrest] using hhead
    subst hc
    refine ⟨_, '\n' :: rest.takeWhile isLineEnd, ?_, hline, ?_, .inl rfl⟩
    · rw [hafter, List.append_assoc, List.cons_append, takeWhile_append_trimLineEnds, ← hrest, hsplit]
    · exact List.forall_mem_cons.mpr ⟨by decide, fun c => isLineEnd_of_mem_takeWhile⟩

/-- A block that is found stands between line ends, the opening fence above it and the closing one below. -/
theorem exists_of_closing? (hstart : startsLineEnd t = true) (h : closing? t = some (block, rest)) :
    ∃ opening closing, t = opening ++ block ++ closing ++ fence ++ rest ∧ (∀ c ∈ opening, isLineEnd c = true) ∧
      opening ≠ [] ∧ (closing = ['\n'] ∨ closing = [] ∧ block = []) := by
  have hopening : t.takeWhile isLineEnd ≠ [] := startsLineEnd_of_trimLineEnds hstart
  unfold closing? at h
  split at h
  · -- the closing fence follows at once
    rename_i rest' hfence
    obtain ⟨rfl, rfl⟩ := Prod.mk.inj (Option.some.inj h)
    refine ⟨t.takeWhile isLineEnd, [], ?_, fun c => isLineEnd_of_mem_takeWhile, hopening, .inr ⟨rfl, rfl⟩⟩
    rw [List.append_nil, List.append_nil, List.append_assoc, ← Text.eq_append_of_after? hfence,
      takeWhile_append_trimLineEnds]
  · rename_i hnone
    obtain ⟨⟨between, rest'⟩, hcut, hpair⟩ := Option.map_eq_some_iff.mp h
    obtain ⟨rfl, rfl⟩ := Prod.mk.inj hpair
    have ht : t = between ++ '\n' :: (fence ++ rest') := by
      rw [Text.eq_of_cut? hcut, List.append_assoc]
      rfl
    refine ⟨between.takeWhile isLineEnd, ['\n'], ?_, fun c => isLineEnd_of_mem_takeWhile, ?_, .inl rfl⟩
    · rw [takeWhile_append_trimLineEnds, ht]
      simp
    · intro hnil
      cases between with
      | nil =>
        -- then the closing fence would follow at once
        have htrim : trimLineEnds t = fence ++ rest' := by
          rw [ht]
          rfl
        rw [htrim, Text.after?_append] at hnone
        cases hnone
      | cons c between =>
        have hc : isLineEnd c = false := by simpa using hnil
        rw [ht] at hopening
        simp [hc] at hopening

/-- A document without front matter is all body. Any other is laid out around what it is cut into. -/
theorem cut_cases (content : Text) :
    cut content = ⟨none, content⟩ ∨ ∃ l : Layout, l.text = content ∧ cut content = ⟨some l.block, l.body⟩ := by
  unfold cut
  dsimp only
  split
  · exact .inl rfl
  · rename_i rest hfence
    split_ifs with hstart
    · split
      · exact .inl rfl
      · rename_i block after hclosing
        obtain ⟨opening, closing, hrest, hopening, hne, hclosed⟩ := exists_of_closing? hstart hclosing
        obtain ⟨line, ending, hafter, hline, hending, hnewline⟩ := exists_afterFence after
        have hmargin : Text.allBlank (content.takeWhile Text.isBlank) = true :=
          List.all_eq_true.mpr fun c => List.mem_takeWhile_imp
        have hcontent : content.takeWhile Text.isBlank ++ Text.trimStart content = content :=
          List.takeWhile_append_dropWhile
        refine .inr ⟨⟨_, hmargin, opening, hopening, hne, block, closing, hclosed, line, hline, ending, hending,
          afterFence after, hnewline⟩, ?_, rfl⟩
        refine Eq.trans ?_ hcontent
        rw [Text.eq_append_of_after? hfence, hrest]
        conv_rhs => rw [hafter]
        simp only [Layout.text, List.append_assoc]
    · exact .inl rfl

/-- The two parts of a document are parts of its source. -/
theorem infix_cut (source : Text) :
    (∀ block ∈ (cut source).frontMatter, block <:+: source) ∧ (cut source).body <:+: source := by
  rcases cut_cases source with hcut | ⟨l, rfl, hcut⟩
  · rw [hcut]
    exact ⟨nofun, List.infix_rfl⟩
  · have hblock : l.block <:+: l.text :=
      ⟨l.margin ++ fence ++ l.opening, l.closing ++ fence ++ l.line ++ l.ending ++ l.body, by simp [Layout.text]⟩
    rw [hcut]
    exact ⟨fun block hmem => Option.some.inj hmem ▸ hblock, (List.suffix_append _ _).isInfix⟩

/-! ## Documents written with fences -/

/-- A document with a block between two fences, all of them on lines of their own. -/
def written (margin block body : Text) : Text :=
  margin ++ fence ++ "\n" ++ block ++ "\n" ++ fence ++ "\n" ++ body

/-- A fence behind a newline starts a line. -/
theorem exists_line_of_infix (h : '\n' :: fence <:+: '\n' :: block) :
    ∃ line ∈ Text.splitOn '\n' block, fence <+: line := by
  have hline (below : Text) : ∃ line ∈ Text.splitOn '\n' (fence ++ below), fence <+: line := by
    obtain ⟨first, lines, hsplit⟩ := List.exists_cons_of_ne_nil (Text.splitBy_ne_nil (· == '\n') below)
    refine ⟨fence ++ first, ?_, List.prefix_append _ _⟩
    rw [Text.splitOn_append_of_not_mem (by decide) hsplit]
    exact List.mem_cons_self
  obtain ⟨above, below, h⟩ := h
  cases above with
  | nil =>
    obtain rfl : fence ++ below = block := (List.cons.inj h).2
    exact hline below
  | cons c above =>
    obtain rfl : above ++ '\n' :: (fence ++ below) = block := by
      rw [← (List.cons.inj h).2]
      simp
    obtain ⟨line, hmem, hfence⟩ := hline below
    rw [Text.splitOn_append_cons]
    exact ⟨line, List.mem_append_right _ hmem, hfence⟩

theorem trimLineEnds_of_head? (h : ∀ c ∈ t.head?, isLineEnd c = false) : trimLineEnds t = t := by
  cases t with
  | nil => rfl
  | cons c t => exact List.dropWhile_cons_of_neg (by simpa using h c rfl)

/-- The closing fence is the first one that starts a line. -/
theorem closing?_of_written (hlines : ∀ line ∈ Text.splitOn '\n' block, ¬fence <+: line)
    (hstart : ∀ c ∈ block.head?, isLineEnd c = false) (rest : Text) :
    closing? ('\n' :: block ++ '\n' :: fence ++ rest) = some (block, rest) := by
  have hnone : ¬ '\n' :: fence <:+: '\n' :: block := fun hpart =>
    have ⟨line, hmem, hfence⟩ := exists_line_of_infix hpart
    hlines line hmem hfence
  have hcut : Text.cut? "\n---" ('\n' :: block ++ '\n' :: fence ++ rest) = some ('\n' :: block, rest) :=
    Text.cut?_append (by decide) hnone rest
  have htrim : trimLineEnds ('\n' :: block) = block := trimLineEnds_of_head? hstart
  cases block with
  | nil =>
    have hfence : trimLineEnds ('\n' :: [] ++ '\n' :: fence ++ rest) = fence ++ rest := rfl
    rw [closing?, hfence, Text.after?_append]
  | cons c block =>
    have hopened : trimLineEnds ('\n' :: (c :: block) ++ '\n' :: fence ++ rest) =
        c :: block ++ '\n' :: (fence ++ rest) := by
      rw [List.append_assoc]
      exact trimLineEnds_of_head? (t := c :: block ++ _) hstart
    have hno : Text.after? fence (c :: block ++ '\n' :: (fence ++ rest)) = none := by
      rw [Text.after?_eq_none_iff, Text.prefix_append_cons_iff (by decide) (by decide)]
      exact fun hfence => hnone (List.cons_prefix_cons.mpr ⟨rfl, hfence⟩).isInfix
    rw [closing?, hopened, hno, hcut]
    exact congrArg (fun block => some (block, rest)) htrim

/-- A document is cut without loss: it is all body, or it is laid out around its block and its body. The block
and the body of a document that was written with fences are cut out as they are. -/
theorem cut_loses_fences_alone :
    (∀ content, cut content = ⟨none, content⟩ ∨
      ∃ l : Layout, l.text = content ∧ cut content = ⟨some l.block, l.body⟩) ∧
    ∀ margin block body : Text, Text.allBlank margin = true →
      (∀ line ∈ Text.splitOn '\n' block, ¬fence <+: line) →
      (∀ c ∈ block.head?, isLineEnd c = false) → (∀ c ∈ body.head?, isLineEnd c = false) →
      cut (written margin block body) = ⟨some block, body⟩ := by
  refine ⟨cut_cases, fun margin block body hmargin hlines hblock hbody => ?_⟩
  have hsource : written margin block body =
      margin ++ (fence ++ ('\n' :: block ++ '\n' :: fence ++ '\n' :: body)) := by simp [written]
  have htrim (u : Text) : Text.trimStart (margin ++ (fence ++ u)) = fence ++ u := by
    rw [Text.trimStart, List.dropWhile_append_of_pos (List.all_eq_true.mp hmargin)]
    rfl
  have hafter : afterFence ('\n' :: body) = body := trimLineEnds_of_head? hbody
  have hstarts : startsLineEnd ('\n' :: block ++ '\n' :: fence ++ '\n' :: body) = true := rfl
  rw [hsource, cut, htrim, Text.after?_append]
  dsimp only
  rw [if_pos hstarts, closing?_of_written hlines hblock]
  exact congrArg (Cut.mk (some block)) hafter

namespace DashesInside

/-- A block with dashes inside its lines, and with a line of two. -/
def dashed : Text := "title: a --- b\r\n\n--\n ---"

def ruled : Text := "---\nText\n---\n"

/-- The dashes in the block and at the start of the body are no fences. -/
theorem block_and_body_kept :
    Text.allBlank "\n \t".toList = true ∧ (∀ line ∈ Text.splitOn '\n' dashed, ¬fence <+: line) ∧
      (∀ c ∈ dashed.head?, isLineEnd c = false) ∧ (∀ c ∈ ruled.head?, isLineEnd c = false) ∧
      cut (written "\n \t" dashed ruled) = ⟨some dashed, ruled⟩ := by
  have hmargin : Text.allBlank "\n \t".toList = true := by decide
  have hlines : ∀ line ∈ Text.splitOn '\n' dashed, ¬fence <+: line := by decide
  have hblock : ∀ c ∈ dashed.head?, isLineEnd c = false := by
    rintro c ⟨⟩
    rfl
  have hbody : ∀ c ∈ ruled.head?, isLineEnd c = false := by
    rintro c ⟨⟩
    rfl
  exact ⟨hmargin, hlines, hblock, hbody, cut_loses_fences_alone.2 _ dashed ruled hmargin hlines hblock hbody⟩

end DashesInside

end StaticSite.Fences
