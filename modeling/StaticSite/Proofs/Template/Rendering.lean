import StaticSite.Template.Render

/-!
# Rendering without control flow

Parts that write texts and values, and choose between such parts, change no names and run to their end. What
they are rendered to is put together from what each of them is rendered to.
-/
namespace StaticSite.Template

variable {s : Scope} {parts body otherwise : List Part} {t u v : Text} {e : Expr}

/-! ## Values -/

/-- Some parts are rendered to a text, to their end and with the names as they were. -/
def Renders (s : Scope) (parts : List Part) (t : Text) : Prop := renderParts? s parts = some (t, s, .done)

namespace Renders

theorem nil : Renders s [] [] := by
  simp [Renders, renderParts?]

theorem cons {part : Part} (hpart : renderPart? s part = some (t, s, .done)) (h : Renders s parts u) :
    Renders s (part :: parts) (t ++ u) := by
  simp only [Renders] at h ⊢
  simp [renderParts?, hpart, h]

theorem text (h : Renders s parts u) : Renders s (.text t :: parts) (t ++ u) :=
  h.cons (by simp [renderPart?])

theorem output {value : Json} (he : eval? s true e = some value) (h : Renders s parts u) :
    Renders s (.output e :: parts) (valueText value ++ u) :=
  h.cons (by simp [renderPart?, he])

/-- A choice is rendered to the body that its condition selects. -/
theorem choice {condition : Bool} (he : eval? s true e = some (.bool condition)) (hbody : Renders s body t)
    (hotherwise : Renders s otherwise v) (h : Renders s parts u) :
    Renders s (.choice [(e, body)] otherwise :: parts) ((if condition then t else v) ++ u) := by
  refine cons ?_ h
  simp only [Renders] at hbody hotherwise
  cases condition with
  | true => simp [renderPart?, renderBranches?, holds?, he, isTruthy, hbody]
  | false => simp [renderPart?, renderBranches?, holds?, he, isTruthy, hotherwise]

theorem render? {context : List (Text × Json)} {template : Template} (h : Renders ⟨[], context⟩ template t) :
    template.render? context = some t := by
  simp only [Renders] at h
  simp [Template.render?, h]

end Renders

end StaticSite.Template
