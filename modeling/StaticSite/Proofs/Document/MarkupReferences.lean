import StaticSite.Document.Rebase
import StaticSite.Document.SourceFile
import StaticSite.Proofs.Document.Attributes
import StaticSite.Proofs.Url.References

/-!
# References in raw markup

Raw markup is cut into characters and quoted attributes. When the values of the attributes are replaced, reading the
new text finds the same attributes with the new values, as long as no quote comes into a value that was not in it
before. Rebasing puts the directory of the document and the base path into values as they are, so a quote in one of
the two is all that can make a difference.
-/
namespace StaticSite.Reference

open FilePath (IsName ofNames)

variable {t rest name spacing value directory : Text} {quote : Char} {base : Option Text} {piece : Piece}
  {pieces : List Piece} {fresh : Bool}

/-- The characters that delimit a value. -/
def isQuote (c : Char) : Bool := c == '"' || c == '\''

/-- What stands between the name of an attribute and its quote: an equals sign with blanks around it. -/
def IsSpacing (t : Text) : Prop :=
  ∃ before after : Text, t = before ++ '=' :: after ∧ before.all Text.isBlank = true ∧ after.all Text.isBlank = true

/-- A piece that is an attribute, as it can be written in markup. -/
def Piece.IsAttribute : Piece → Prop
  | .char _ => False
  | .attribute name spacing quote value =>
    (name = "src".toList ∨ name = "href".toList) ∧ IsSpacing spacing ∧ isQuote quote = true ∧ quote ∉ value

/-! ## Reading one attribute -/

theorem quotedValue?_append (hspacing : IsSpacing spacing) (hquote : isQuote quote = true) (hvalue : quote ∉ value)
    (rest : Text) :
    quotedValue? (spacing ++ quote :: value ++ quote :: rest) = some (spacing, quote, value, rest) := by
  obtain ⟨before, after, rfl, hbefore, hafter⟩ := hspacing
  have hblank : Text.isBlank quote = false := by
    rcases Bool.or_eq_true_iff.mp hquote with h | h
    · rw [beq_iff_eq.mp h]
      decide
    · rw [beq_iff_eq.mp h]
      decide
  have htakeBefore : (before ++ '=' :: (after ++ quote :: (value ++ quote :: rest))).takeWhile Text.isBlank = before :=
    Text.takeWhile_append_of_head? hbefore (by simp; decide)
  have htakeAfter : (after ++ quote :: (value ++ quote :: rest)).takeWhile Text.isBlank = after :=
    Text.takeWhile_append_of_head? hafter (by simpa using hblank)
  have htakeValue : (value ++ quote :: rest).takeWhile (· != quote) = value := by
    refine Text.takeWhile_append_of_head? ?_ (by simp)
    rw [List.all_eq_true]
    intro c hc
    simpa using ne_of_mem_of_not_mem hc hvalue
  have hquote' : (quote == '"' || quote == '\'') = true := hquote
  simp only [List.append_assoc, List.cons_append]
  simp only [quotedValue?, htakeBefore, List.drop_left, htakeAfter, htakeValue, hquote', if_true]

theorem eq_append_of_quotedValue? (h : quotedValue? t = some (spacing, quote, value, rest)) :
    t = spacing ++ quote :: value ++ quote :: rest ∧ IsSpacing spacing ∧ isQuote quote = true ∧ quote ∉ value := by
  unfold quotedValue? at h
  dsimp only at h
  split at h
  · rename_i afterEquals hequals
    split at h
    · rename_i delimiter body hbody
      split_ifs at h with hquote
      split at h
      · rename_i closing next hnext
        simp only [Option.some.injEq, Prod.mk.injEq] at h
        obtain ⟨rfl, rfl, rfl, rfl⟩ := h
        have hclosing : closing = delimiter := by
          have hhead := List.head?_dropWhile_not (· != delimiter) body
          rw [← Text.drop_takeWhile, hnext] at hhead
          simpa using hhead
        refine ⟨?_, ⟨_, _, rfl, List.all_takeWhile, List.all_takeWhile⟩, hquote, ?_⟩
        · have hvalue := Text.takeWhile_append_drop (· != delimiter) body
          have hafter := Text.takeWhile_append_drop Text.isBlank afterEquals
          have hbefore := Text.takeWhile_append_drop Text.isBlank t
          rw [hnext, hclosing] at hvalue
          rw [hbody] at hafter
          rw [hequals] at hbefore
          conv_lhs => rw [← hbefore, ← hafter, ← hvalue]
          simp
        · intro hmem
          simpa using List.mem_takeWhile_imp hmem
      · cases h
    · cases h
  · cases h

theorem attribute?_eq_some_iff : attribute? t = some (piece, rest) ↔ piece.IsAttribute ∧ t = piece.text ++ rest := by
  have hsrc (u : Text) : Text.after? "src".toList ("href".toList ++ u) = none := rfl
  constructor
  · intro h
    rcases Option.or_eq_some_iff.mp h with h | ⟨-, h⟩ <;>
    · obtain ⟨after, hafter, h⟩ := Option.bind_eq_some_iff.mp h
      obtain ⟨⟨spacing, quote, value, next⟩, hvalue, h⟩ := Option.bind_eq_some_iff.mp h
      simp only [Option.some.injEq, Prod.mk.injEq] at h
      obtain ⟨rfl, rfl⟩ := h
      obtain ⟨rfl, hspacing, hquote, hnot⟩ := eq_append_of_quotedValue? hvalue
      refine ⟨⟨by simp, hspacing, hquote, hnot⟩, ?_⟩
      rw [Text.eq_append_of_after? hafter]
      simp [Piece.text]
  · rintro ⟨hpiece, rfl⟩
    rcases piece with c | ⟨name, spacing, quote, value⟩
    · exact hpiece.elim
    · obtain ⟨hname, hspacing, hquote, hnot⟩ := hpiece
      have hvalue := quotedValue?_append hspacing hquote hnot rest
      have htext : (Piece.attribute name spacing quote value).text ++ rest =
          name ++ (spacing ++ quote :: value ++ quote :: rest) := by simp [Piece.text]
      rw [htext]
      rcases hname with rfl | rfl
      · simp only [attribute?, Text.after?_append, Option.bind_eq_bind, Option.bind_some, hvalue, Option.some_or]
      · simp only [attribute?, hsrc, Text.after?_append, Option.bind_eq_bind, Option.bind_none, Option.bind_some, hvalue,
          Option.none_or]

/-! ## Reading markup -/

/-- Markup is cut into pieces; `fresh` tells whether an attribute may stand at its start. -/
inductive Scans : Bool → Text → List Piece → Prop where
  | done (fresh : Bool) : Scans fresh [] []
  | found {t rest : Text} {piece : Piece} {pieces : List Piece} (hread : attribute? t = some (piece, rest))
      (hrest : Scans false rest pieces) : Scans true t (piece :: pieces)
  | passed {fresh : Bool} {c : Char} {rest : Text} {pieces : List Piece}
      (hread : fresh = true → attribute? (c :: rest) = none) (hrest : Scans (Text.isBlank c) rest pieces) :
      Scans fresh (c :: rest) (.char c :: pieces)

theorem attribute?_nil : attribute? [] = none := rfl

theorem scans_scanFrom {fuel : Nat} (hfuel : t.length ≤ fuel) (fresh : Bool) :
    Scans fresh t (scanFrom fuel fresh t) := by
  induction fuel generalizing t fresh with
  | zero =>
    obtain rfl := List.eq_nil_of_length_eq_zero (Nat.le_zero.mp hfuel)
    exact .done fresh
  | succ fuel ih =>
    cases t with
    | nil => exact .done fresh
    | cons c t =>
      rw [List.length_cons] at hfuel
      cases hread : (if fresh then attribute? (c :: t) else none) with
      | none =>
        simp only [scanFrom, hread]
        refine .passed (fun hfresh => by simpa [hfresh] using hread) (ih (by omega) _)
      | some found =>
        obtain ⟨piece, rest⟩ := found
        simp only [scanFrom, hread]
        cases fresh with
        | false => cases hread
        | true =>
          rw [if_pos rfl] at hread
          refine .found hread (ih ?_ false)
          obtain ⟨hpiece, htext⟩ := attribute?_eq_some_iff.mp hread
          have hlength := congrArg List.length htext
          have hpositive : piece.text ≠ [] := by
            cases piece <;> simp [Piece.text]
          have := List.length_pos_iff.mpr hpositive
          rw [List.length_cons, List.length_append] at hlength
          omega

theorem scans_scan (t : Text) : Scans true t (scan t) := scans_scanFrom le_rfl true

/-- Markup is cut in one way. -/
theorem Scans.unique {pieces' : List Piece} (h : Scans fresh t pieces) (h' : Scans fresh t pieces') :
    pieces = pieces' := by
  induction h generalizing pieces' with
  | done =>
    cases h' with
    | done => rfl
    | found hread => cases attribute?_nil.symm.trans hread
  | found hread _ ih =>
    cases h' with
    | done => cases attribute?_nil.symm.trans hread
    | found hread' hrest' =>
      obtain ⟨rfl, rfl⟩ := Prod.mk.inj (Option.some.inj (hread.symm.trans hread'))
      rw [ih hrest']
    | passed hread' _ => cases (hread' rfl).symm.trans hread
  | passed hread _ ih =>
    cases h' with
    | found hread' _ => cases (hread rfl).symm.trans hread'
    | passed _ hrest' => rw [ih hrest']

theorem Scans.scan_eq (h : Scans true t pieces) : scan t = pieces := (scans_scan t).unique h

/-- Nothing of the markup is lost. -/
theorem Scans.text (h : Scans fresh t pieces) : pieces.flatMap Piece.text = t := by
  induction h with
  | done => rfl
  | found hread _ ih => rw [List.flatMap_cons, ih, (attribute?_eq_some_iff.mp hread).2]
  | passed _ _ ih =>
    rw [List.flatMap_cons, ih]
    rfl

theorem Scans.proper (h : Scans fresh t pieces) : ∀ piece ∈ pieces, (∃ c, piece = .char c) ∨ piece.IsAttribute := by
  induction h with
  | done => simp
  | found hread _ ih => exact List.forall_mem_cons.mpr ⟨.inr (attribute?_eq_some_iff.mp hread).1, ih⟩
  | passed _ _ ih => exact List.forall_mem_cons.mpr ⟨.inl ⟨_, rfl⟩, ih⟩

/-! ## Other values in the place of the values -/

/-- The piece with another value, which may depend on the name of the attribute. -/
def Piece.mapValue (f : Text → Text → Text) : Piece → Piece
  | .char c => .char c
  | .attribute name spacing quote value => .attribute name spacing quote (f name value)

/-- No quote comes into the value of the piece that was not in it. -/
def Piece.BringsNoQuote (f : Text → Text → Text) : Piece → Prop
  | .char _ => True
  | .attribute name _ _ value => ∀ c ∈ f name value, isQuote c = true → c ∈ value

variable {f : Text → Text → Text}

theorem Piece.IsAttribute.mapValue (h : piece.IsAttribute) (hf : piece.BringsNoQuote f) :
    (piece.mapValue f).IsAttribute := by
  rcases piece with c | ⟨name, spacing, quote, value⟩
  · exact h.elim
  · obtain ⟨hname, hspacing, hquote, hnot⟩ := h
    exact ⟨hname, hspacing, hquote, fun hmem => hnot (hf quote hmem hquote)⟩

theorem mem_of_mem_mapValue (hf : ∀ piece ∈ pieces, piece.BringsNoQuote f) {c : Char} (hc : isQuote c = true)
    (hmem : c ∈ (pieces.map (Piece.mapValue f)).flatMap Piece.text) : c ∈ pieces.flatMap Piece.text := by
  rw [List.flatMap_map, List.mem_flatMap] at hmem
  obtain ⟨piece, hpiece, hmem⟩ := hmem
  refine List.mem_flatMap.mpr ⟨piece, hpiece, ?_⟩
  have hvalue := hf piece hpiece
  rcases piece with d | ⟨name, spacing, quote, value⟩
  · exact hmem
  · simp only [Piece.mapValue, Piece.text, List.mem_append, List.mem_cons] at hmem ⊢
    have := hvalue c
    tauto

/-- Attributes start with one of two letters, so a beginning of the new text without these is one of the old text. -/
theorem beginning_of_mapValue (hf : ∀ piece ∈ pieces, piece.BringsNoQuote f)
    (hpieces : ∀ piece ∈ pieces, (∃ c, piece = .char c) ∨ piece.IsAttribute) {start after : Text}
    (hstart : ∀ c ∈ start, c ≠ 's' ∧ c ≠ 'h')
    (h : (pieces.map (Piece.mapValue f)).flatMap Piece.text = start ++ after) :
    ∃ after', pieces.flatMap Piece.text = start ++ after' ∧ ∀ c ∈ after, isQuote c = true → c ∈ after' := by
  induction start generalizing pieces with
  | nil =>
    refine ⟨_, rfl, fun c hc hquote => mem_of_mem_mapValue hf hquote ?_⟩
    rw [h]
    exact hc
  | cons d start ih =>
    obtain ⟨hd, hletters⟩ := List.forall_mem_cons.mp hstart
    cases pieces with
    | nil => cases h
    | cons piece pieces =>
      obtain ⟨hpiece, hothers⟩ := List.forall_mem_cons.mp hpieces
      rcases hpiece with ⟨c, rfl⟩ | hattribute
      · obtain ⟨rfl, hrest⟩ := List.cons.inj h
        obtain ⟨after', hafter', hquotes⟩ := ih (List.forall_mem_cons.mp hf).2 hothers hletters hrest
        refine ⟨after', ?_, hquotes⟩
        rw [List.flatMap_cons, hafter']
        rfl
      · rcases piece with c | ⟨name, spacing, quote, value⟩
        · exact hattribute.elim
        · rcases hattribute.1 with rfl | rfl
          · exact absurd (List.cons.inj h).1.symm hd.1
          · exact absurd (List.cons.inj h).1.symm hd.2

theorem IsSpacing.letterless (h : IsSpacing spacing) : ∀ c ∈ spacing, c ≠ 's' ∧ c ≠ 'h' := by
  obtain ⟨before, after, rfl, hbefore, hafter⟩ := h
  have hblank {u : Text} (hu : u.all Text.isBlank = true) : ∀ c ∈ u, c ≠ 's' ∧ c ≠ 'h' := by
    intro c hc
    have := List.all_eq_true.mp hu c hc
    constructor <;> rintro rfl <;> exact absurd this (by decide)
  exact List.forall_mem_append.mpr ⟨hblank hbefore, List.forall_mem_cons.mpr ⟨by decide, hblank hafter⟩⟩

theorem letterless_of_isQuote (h : isQuote quote = true) : quote ≠ 's' ∧ quote ≠ 'h' := by
  constructor <;> rintro rfl <;> exact absurd h (by decide)

/-- No attribute comes into being where there was none. -/
theorem attribute?_mapValue_eq_none (hf : ∀ piece ∈ pieces, piece.BringsNoQuote f) {c : Char}
    (hpieces : ∀ piece ∈ pieces, (∃ c, piece = .char c) ∨ piece.IsAttribute)
    (h : attribute? (c :: pieces.flatMap Piece.text) = none) :
    attribute? (c :: (pieces.map (Piece.mapValue f)).flatMap Piece.text) = none := by
  by_contra hsome
  obtain ⟨⟨piece, rest⟩, hread⟩ := Option.ne_none_iff_exists'.mp hsome
  obtain ⟨hattribute, htext⟩ := attribute?_eq_some_iff.mp hread
  rcases piece with d | ⟨name, spacing, quote, value⟩
  · exact hattribute.elim
  · obtain ⟨hname, hspacing, hquote, -⟩ := hattribute
    obtain ⟨letters, rfl, hletters⟩ : ∃ letters : Text, name = c :: letters ∧ ∀ d ∈ letters, d ≠ 's' ∧ d ≠ 'h' := by
      rcases hname with rfl | rfl
      · exact ⟨"rc".toList, by rw [(List.cons.inj htext).1]; rfl, by simp⟩
      · exact ⟨"ref".toList, by rw [(List.cons.inj htext).1]; rfl, by simp⟩
    have hbegins : (pieces.map (Piece.mapValue f)).flatMap Piece.text =
        (letters ++ (spacing ++ [quote])) ++ (value ++ quote :: rest) := by
      simpa [Piece.text] using htext
    have hstart : ∀ d ∈ letters ++ (spacing ++ [quote]), d ≠ 's' ∧ d ≠ 'h' :=
      List.forall_mem_append.mpr ⟨hletters, List.forall_mem_append.mpr
        ⟨hspacing.letterless, List.forall_mem_singleton.mpr (letterless_of_isQuote hquote)⟩⟩
    obtain ⟨after, hafter, hquotes⟩ := beginning_of_mapValue hf hpieces hstart hbegins
    -- the closing quote was in the text before, so that the old text has an attribute here too
    obtain ⟨value', rest', rfl, hnot⟩ := List.eq_append_cons_of_mem (hquotes quote (by simp) hquote)
    have hread' : attribute? (c :: pieces.flatMap Piece.text) =
        some (.attribute (c :: letters) spacing quote value', rest') :=
      attribute?_eq_some_iff.mpr ⟨⟨hname, hspacing, hquote, hnot⟩, by rw [hafter]; simp [Piece.text]⟩
    rw [h] at hread'
    cases hread'

theorem Scans.mapValue (h : Scans fresh t pieces) (hf : ∀ piece ∈ pieces, piece.BringsNoQuote f) :
    Scans fresh ((pieces.map (Piece.mapValue f)).flatMap Piece.text) (pieces.map (Piece.mapValue f)) := by
  induction h with
  | done fresh => exact .done fresh
  | found hread _ ih =>
    obtain ⟨hpiece, hpieces⟩ := List.forall_mem_cons.mp hf
    have hattribute := (attribute?_eq_some_iff.mp hread).1.mapValue hpiece
    exact .found (attribute?_eq_some_iff.mpr ⟨hattribute, rfl⟩) (ih hpieces)
  | passed hread hrest ih =>
    have hpieces := (List.forall_mem_cons.mp hf).2
    refine .passed (fun hfresh => attribute?_mapValue_eq_none hpieces hrest.proper ?_) (ih hpieces)
    rw [hrest.text]
    exact hread hfresh

/-- Reading markup in which the values have been replaced finds the attributes with the new values. -/
theorem scan_mapValue (hf : ∀ piece ∈ scan t, piece.BringsNoQuote f) :
    scan ((scan t).flatMap fun piece => (piece.mapValue f).text) = (scan t).map (Piece.mapValue f) := by
  rw [← List.flatMap_map]
  exact ((scans_scan t).mapValue hf).scan_eq

/-! ## Values by the name of the attribute -/

/-- The value of a `src` or `href` as a function on images and one on links give it. -/
def mapNamed (image link : Text → Text) (name value : Text) : Text :=
  if name = "src".toList then image value else link value

/-- No quote comes into a text that was not in it. -/
def AddsNoQuote (f : Text → Text) : Prop := ∀ t, ∀ c ∈ f t, isQuote c = true → c ∈ t

theorem bringsNoQuote_mapNamed {image link : Text → Text} (himage : AddsNoQuote image) (hlink : AddsNoQuote link)
    (piece : Piece) : piece.BringsNoQuote (mapNamed image link) := by
  rcases piece with c | ⟨name, spacing, quote, value⟩
  · trivial
  · intro c hc
    unfold mapNamed at hc
    split_ifs at hc
    · exact himage value c hc
    · exact hlink value c hc

/-! ## Rebasing -/

/-- What the value of a `src` or `href` attribute becomes. -/
def rebaseValue (directory : Text) (base : Option Text) : Text → Text → Text :=
  mapNamed (fun t => Url.rebaseImage t directory base) fun t => Url.rebaseLink t base

theorem Piece.rebase_eq (directory : Text) (base : Option Text) :
    Piece.rebase directory base = Piece.mapValue (rebaseValue directory base) := by
  funext piece
  cases piece <;> rfl

theorem rebaseMarkup_eq (t directory : Text) (base : Option Text) :
    rebaseMarkup t directory base = (scan t).flatMap fun piece => (piece.mapValue (rebaseValue directory base)).text := by
  rw [rebaseMarkup, Piece.rebase_eq]

theorem ne_slash_of_isQuote (h : isQuote quote = true) : quote ≠ '/' := by
  rintro rfl
  exact absurd h (by decide)

theorem addsNoQuote_rebaseImage (hdirectory : ∀ c ∈ directory, isQuote c = false)
    (hbase : ∀ c ∈ base.getD [], isQuote c = false) : AddsNoQuote fun t => Url.rebaseImage t directory base := by
  intro t c hc hquote
  rcases Url.mem_rebaseImage hc (ne_slash_of_isQuote hquote) with h | h | h
  · exact absurd hquote (by simp [hbase c h])
  · exact absurd hquote (by simp [hdirectory c h])
  · exact h

theorem addsNoQuote_rebaseLink (hbase : ∀ c ∈ base.getD [], isQuote c = false) :
    AddsNoQuote fun t => Url.rebaseLink t base := by
  intro t c hc hquote
  rcases Url.mem_rebaseLink hc (ne_slash_of_isQuote hquote) with h | h
  · exact absurd hquote (by simp [hbase c h])
  · exact h

theorem exists_names_of_contentDirectory (tree : FileTree) (file : SourceFile) (contentRoot : FilePath) :
    ∃ ds, (∀ d ∈ ds, IsName d) ∧ file.contentDirectory tree contentRoot = ofNames ds := by
  have hslash (p : FilePath) : ∃ ds, (∀ d ∈ ds, IsName d) ∧ FilePath.toSlash p = ofNames ds := by
    refine ⟨_, fun d hd => ?_, FilePath.toSlash_eq p⟩
    obtain ⟨part, hpart, hname⟩ := List.mem_filterMap.mp hd
    cases part with
    | name n =>
      obtain rfl := Option.some.inj hname
      exact FilePath.isName_of_mem_parts hpart
    | root | here | up => cases hname
  unfold SourceFile.contentDirectory
  split
  · exact hslash _
  · exact hslash _

/-- An image of one letter in markup, in one of the two quotes. -/
theorem scan_image (hquote : isQuote quote = true) :
    scan ("src=".toList ++ [quote, 'x', quote]) = [.attribute "src".toList "=".toList quote "x".toList] := by
  have hnot : quote ∉ "x".toList := by
    rintro hmem
    rw [List.mem_singleton.mp hmem] at hquote
    exact absurd hquote (by decide)
  have hattribute : (Piece.attribute "src".toList "=".toList quote "x".toList).IsAttribute :=
    ⟨.inl rfl, ⟨[], [], rfl, rfl, rfl⟩, hquote, hnot⟩
  exact (Scans.found (attribute?_eq_some_iff.mpr ⟨hattribute, by simp [Piece.text]⟩) (.done false)).scan_eq

/-- In a directory or under a base path with a quote, an image of one letter ends before its value does. -/
theorem not_mem_of_scan_image {ds : List Text} (hds : ∀ d ∈ ds, IsName d) (hquote : isQuote quote = true)
    (h : scan (rebaseMarkup ("src=".toList ++ [quote, 'x', quote]) (ofNames ds) base) =
      (scan ("src=".toList ++ [quote, 'x', quote])).map (Piece.rebase (ofNames ds) base)) :
    quote ∉ ofNames ds ∧ quote ∉ base.getD [] := by
  have hvalue : Url.rebaseImage "x".toList (ofNames ds) base = base.getD [] ++ '/' :: ofNames (ds ++ ["x".toList]) :=
    Url.rebaseImage_of_relative (by decide) (by decide) (by decide) hds base
  have hproper := (scans_scan (rebaseMarkup ("src=".toList ++ [quote, 'x', quote]) (ofNames ds) base)).proper
  rw [h, scan_image hquote, List.map_singleton, List.forall_mem_singleton] at hproper
  obtain ⟨-, -, -, hnot⟩ := hproper.resolve_left (fun ⟨c, hc⟩ => by cases hc)
  have hslash := ne_slash_of_isQuote hquote
  rw [if_pos rfl, hvalue, List.mem_append, not_or, List.mem_cons, not_or, Url.mem_ofNames_iff hslash] at hnot
  refine ⟨fun hmem => hnot.2.2 ?_, hnot.1⟩
  obtain ⟨d, hd, hquote⟩ := (Url.mem_ofNames_iff hslash).mp hmem
  exact ⟨d, List.mem_append_left _ hd, hquote⟩

/-- Reading rebased markup finds the attributes of the markup, in order, in the same quotes and with the rebased values,
and all characters between them, whenever no quote has come into a value; and this is so for all markup of a document
if and only if neither the directory of the document nor the base path holds a quote. -/
theorem scan_rebaseMarkup (tree : FileTree) (file : SourceFile) (contentRoot : FilePath) (base : Option Text) :
    let directory := file.contentDirectory tree contentRoot
    let readAgain (t : Text) :=
      scan (rebaseMarkup t directory base) = (scan t).map (Piece.rebase directory base)
    (∀ t, (scan t).flatMap Piece.text = t) ∧
    (∀ t, (∀ piece ∈ scan t, piece.BringsNoQuote (rebaseValue directory base)) → readAgain t) ∧
    ((∀ t, readAgain t) ↔ ∀ c, isQuote c = true → c ∉ directory ∧ c ∉ base.getD []) := by
  intro directory readAgain
  have hkept (t : Text) (h : ∀ piece ∈ scan t, piece.BringsNoQuote (rebaseValue directory base)) : readAgain t := by
    dsimp only [readAgain]
    rw [rebaseMarkup_eq, scan_mapValue h, Piece.rebase_eq]
  refine ⟨fun t => (scans_scan t).text, hkept, fun h c hquote => ?_, fun h t => hkept t fun piece _ => ?_⟩
  · obtain ⟨ds, hds, hdirectory⟩ := exists_names_of_contentDirectory tree file contentRoot
    have himage := h ("src=".toList ++ [c, 'x', c])
    dsimp only [readAgain, directory] at himage ⊢
    rw [hdirectory] at himage ⊢
    exact not_mem_of_scan_image hds hquote himage
  · have hplain : ∀ c ∈ directory, isQuote c = false := by
      intro c hc
      by_contra hquote
      exact (h c (by simpa using hquote)).1 hc
    have hbase : ∀ c ∈ base.getD [], isQuote c = false := by
      intro c hc
      by_contra hquote
      exact (h c (by simpa using hquote)).2 hc
    exact bringsNoQuote_mapNamed (addsNoQuote_rebaseImage hplain hbase) (addsNoQuote_rebaseLink hbase) piece

/-- The image of a document in a directory with a quote in its name. -/
theorem quoted_directory_breaks_out :
    let file : SourceFile := ⟨"/content/a\"b/post.md", "/content/a\"b/post.md"⟩
    let directory := file.contentDirectory .empty "/content"
    rebaseMarkup "<img src=\"x.png\">" directory none = "<img src=\"/a\"b/x.png\">".toList ∧
    scan (rebaseMarkup "<img src=\"x.png\">" directory none) ≠
      (scan "<img src=\"x.png\">".toList).map (Piece.rebase directory none) := by
  intro file directory
  have hrebased : rebaseMarkup "<img src=\"x.png\">" directory none = "<img src=\"/a\"b/x.png\">".toList := by decide
  refine ⟨hrebased, fun h => ?_⟩
  have hlength := congrArg List.length h
  rw [hrebased] at hlength
  exact absurd hlength (by decide)

end StaticSite.Reference
