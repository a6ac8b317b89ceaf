import MarkupSnippets.Proofs.Dependence

namespace MarkupSnippets

namespace Record

variable {α : Type}

theorem get?_merge (r overlay : Record α) (query : String) :
    (r.merge overlay.fields).get? query = (overlay.get? query).or (r.get? query) := by
  have hfields : ∀ (fields base : Fields α), fields.Ordered →
      (base.merge fields).get? query = (fields.get? query).or (base.get? query) := by
    intro fields
    induction fields with
    | nil => exact fun _ _ => rfl
    | cons k v rest ih =>
      intro base hordered
      rw [Fields.merge, ih _ hordered.rest, Fields.get?_insert, Fields.get?]
      by_cases hq : query = k
      · subst hq
        simp [hordered.get?_eq_none (String.lt_irrefl query)]
      · simp [hq]
  exact hfields overlay.fields r.fields overlay.ordered

end Record

namespace Stage

variable {path : String} {data : Data}

end Stage

namespace Workshop

variable (w : Workshop)

variable {w} {spot : Spot} {children : List Markup.Node} {scope : Data} {scopes : List Data}

end Workshop

end MarkupSnippets
