/-! # Lexicographic comparison

Records are ordered field by field: `compareLex f g` compares by `f` and, where `f` does not tell
two records apart, by `g`. The comparison is transitive when both parts are, and it tells all
different records apart when the two parts together do. -/

namespace FormalLanguages

universe u v

variable {α : Type u} {γ : Type v}

/-- Comparing by a field is transitive when the order of the field is. -/
theorem transCmp_compareOn [Ord α] [Std.TransOrd α] (f : γ → α) : Std.TransCmp (compareOn f) where
  eq_swap {x y} := Std.OrientedOrd.eq_swap (a := f x) (b := f y)
  isLE_trans {x y z} := Std.TransOrd.isLE_trans (a := f x) (b := f y) (c := f z)

/-- Records that compare as equal by a field agree in that field. -/
theorem eq_of_compareOn [Ord α] [Std.LawfulEqOrd α] {f : γ → α} {x y : γ}
    (h : compareOn f x y = .eq) : f x = f y := Std.LawfulEqOrd.eq_of_compare h

/-- **Lexicographic comparison is transitive** when both of its parts are. -/
theorem transCmp_compareLex {f g : γ → γ → Ordering} (hf : Std.TransCmp f)
    (hg : Std.TransCmp g) : Std.TransCmp (compareLex f g) where
  eq_swap {x y} := by
    simp only [compareLex, Ordering.swap_then, ← Std.OrientedCmp.eq_swap]
  isLE_trans {x y z} hxy hyz := by
    simp only [compareLex, Ordering.isLE_then_iff_and] at hxy hyz ⊢
    obtain ⟨fxy, hxy⟩ := hxy
    obtain ⟨fyz, hyz⟩ := hyz
    refine ⟨Std.TransCmp.isLE_trans fxy fyz, ?_⟩
    rcases hxy with hxy | hxy
    · exact .inl (Std.TransCmp.lt_of_lt_of_isLE hxy fyz)
    · rcases hyz with hyz | hyz
      · exact .inl (Std.TransCmp.lt_of_isLE_of_lt fxy hyz)
      · exact .inr (Std.TransCmp.isLE_trans hxy hyz)

/-- Lexicographic comparison tells different records apart when its two parts together do. -/
theorem lawfulEqCmp_compareLex {f g : γ → γ → Ordering} (hf : Std.TransCmp f)
    (hg : Std.TransCmp g) (separates : ∀ x y, f x y = .eq → g x y = .eq → x = y) :
    Std.LawfulEqCmp (compareLex f g) where
  compare_self := Ordering.then_eq_eq.2 ⟨Std.ReflCmp.compare_self, Std.ReflCmp.compare_self⟩
  eq_of_compare {x y} h := separates x y (Ordering.then_eq_eq.1 h).1 (Ordering.then_eq_eq.1 h).2

end FormalLanguages
