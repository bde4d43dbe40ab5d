import ClassSchema.Proofs.PassedSites
import ClassSchema.Proofs.SideBySide

/-!
# The limit on the nesting of classes

The limit only cuts an expansion off. Where it is not reported, a greater limit changes nothing: not the result, and not the
events on the way (`Model.CutOff`, which is kept from step to step). Where it is reported, the path goes into exactly one property
more than the limit admits, since an expansion goes into a property for every class that it opens (`PropertyPath.Descends`). And a
limit that admits all classes but one is never reported, whatever refers to what, since the open classes are distinct.
-/

namespace ClassSchema

/-! ## How far a path goes into properties -/

/-- Whether a step goes to a property, and not to the items of a list. -/
def PathStep.isName : PathStep → Bool
  | .name _ => true
  | .items => false

namespace PropertyPath

/-- The path starts at the class `root` and goes from there into `n` properties. -/
def Descends (path : PropertyPath) (root : String) (n : Nat) : Prop :=
  ∃ steps, path.steps = .name root :: steps ∧ steps.countP PathStep.isName = n

variable {path : PropertyPath} {root : String} {n : Nat}

/-- The path of a class goes into no property. -/
theorem descends_root (root : String) : (PropertyPath.root root).Descends root 0 := ⟨[], rfl, rfl⟩

/-- One property more. -/
theorem Descends.property (h : path.Descends root n) (name : String) : (path.property name).Descends root (n + 1) := by
  obtain ⟨steps, hsteps, rfl⟩ := h
  refine ⟨steps ++ [.name name], by rw [PropertyPath.property, hsteps, List.cons_append], ?_⟩
  rw [List.countP_append]
  rfl

/-- The items of a list are no property. -/
theorem Descends.items (h : path.Descends root n) : path.items.Descends root n := by
  obtain ⟨steps, hsteps, rfl⟩ := h
  refine ⟨steps ++ [.items], by rw [PropertyPath.items, hsteps, List.cons_append], ?_⟩
  rw [List.countP_append]
  rfl

end PropertyPath

namespace Model

variable {m : Model} {options : ExpansionOptions} {root : String}

/-! ## Where the limit is reported -/

/-- The path of a site goes into a property for every open class, and no more classes are open than the limit allows around a
class, and that class itself. -/
structure Measured (options : ExpansionOptions) (root : String) (site : Site) : Prop where
  descends : site.path.Descends root site.active.length
  length_le : site.active.length ≤ options.maxDepth + 1

/-- One turn downwards goes into a property and opens a class, or does neither, if nothing is wrong above. -/
theorem Measured.below {site next : Site} (h : Measured options root site)
    (hnone : ∀ fault, ¬m.Defect options site fault) (hnext : next ∈ m.below site) : Measured options root next := by
  obtain ⟨hdescends, hlength⟩ := h
  rcases below_cases hnext with ⟨name, c, hsubject, hc, hactive, p, -, hpath⟩ | ⟨hactive, hpath | hpath⟩
  · refine ⟨?_, ?_⟩
    · rw [hactive, hpath, List.length_append, List.length_singleton]
      exact hdescends.property p.name
    · rw [hactive, List.length_append, List.length_singleton]
      exact Nat.succ_le_succ (not_open_of_not_defect hnone hsubject hc).2
  · rw [← hactive, ← hpath] at hdescends
    exact ⟨hdescends, hactive ▸ hlength⟩
  · refine ⟨?_, hactive ▸ hlength⟩
    rw [hactive, hpath]
    exact hdescends.items

/-- The limit is reported as it is, at a path into one property more than it admits. -/
theorem descends_of_depthLimit {path : PropertyPath} {limit : Nat}
    (h : (m.generate options root).result = .error ⟨path, .depthLimit limit⟩) :
    limit = options.maxDepth ∧ path.Descends root (options.maxDepth + 1) := by
  have hroot : Measured options root (.root root) := ⟨PropertyPath.descends_root root, Nat.zero_le _⟩
  obtain ⟨site, hmeasured, hpath, hdefect⟩ := exists_passed_of_error hroot (fun _ _ hs => hs.below) h
  cases hdefect with
  | depthLimit _ _ hlt =>
    have hlength := Nat.le_antisymm hmeasured.length_le hlt
    have hdescends := hmeasured.descends
    rw [← hpath, hlength] at hdescends
    exact ⟨rfl, hdescends⟩

/-- A limit that admits all classes but one is not reported. -/
theorem ne_depthLimit (hdepth : m.classes.classes.length - 1 ≤ options.maxDepth) (path : PropertyPath) (limit : Nat) :
    (m.generate options root).result ≠ .error ⟨path, .depthLimit limit⟩ := by
  intro h
  obtain ⟨site, hplaced, hnodup, hdefect⟩ := exists_site_of_error h
  cases hdefect with
  | @depthLimit _ active name hc hopen hlt =>
    have hfewer : active.length < m.classes.classes.length := Trail.length_lt hplaced hnodup hc hopen
    omega

/-! ## Two limits -/

/-- A step and its counterpart under a greater limit: they are the same, or the first reports its limit. -/
def CutOff (α : Type) (x y : Traced SchemaError α) : Prop :=
  x = y ∨ ∃ path limit, x.result = .error ⟨path, .depthLimit limit⟩

/-- An expansion that is cut off is cut off for good. -/
theorem sideBySide_cutOff : SideBySide CutOff where
  same x _ := Or.inl rfl
  bind := by
    rintro α β x y f g (rfl | ⟨path, limit, hx⟩) hfg
    · cases hr : x.result with
      | error e => exact Or.inl (by rw [Traced.bind_of_error hr, Traced.bind_of_error hr])
      | ok a =>
        rcases hfg a with h | ⟨path, limit, h⟩
        · exact Or.inl (by rw [Traced.bind_of_ok hr, Traced.bind_of_ok hr, h])
        · exact Or.inr ⟨path, limit, Traced.result_bind_eq_error.2 (Or.inr ⟨a, hr, h⟩)⟩
    · exact Or.inr ⟨path, limit, Traced.result_bind_eq_error.2 (Or.inl hx)⟩

/-- A greater limit changes nothing of an expansion that does not report its limit. -/
theorem cutOff_generate (m : Model) (policy : TuplePolicy) (root : String) {d d' : Nat} (hd : d ≤ d') :
    CutOff Schema (m.generate ⟨d, policy⟩ root) (m.generate ⟨d', policy⟩ root) :=
  sideBySide_cutOff.expand (fun _ _ => Or.inl rfl) hd fun path _ _ _ => Or.inr ⟨path, d, rfl⟩

/-- The limit is a pure cut-off. An expansion that does not report its limit is the same under every greater limit, result
and events; a limit that is reported is the one given, at a path into one property more than it admits; and a limit that admits
all registered classes but one is never reported. -/
theorem generate_maxDepth (m : Model) (policy : TuplePolicy) (root : String) (d : Nat) :
    (∀ d', d ≤ d' → (∀ path limit, (m.generate ⟨d, policy⟩ root).result ≠ .error ⟨path, .depthLimit limit⟩) →
      m.generate ⟨d', policy⟩ root = m.generate ⟨d, policy⟩ root) ∧
    (∀ path limit, (m.generate ⟨d, policy⟩ root).result = .error ⟨path, .depthLimit limit⟩ →
      limit = d ∧ ∃ steps, path.steps = .name root :: steps ∧ steps.countP PathStep.isName = d + 1) ∧
    (m.classes.classes.length - 1 ≤ d →
      ∀ path limit, (m.generate ⟨d, policy⟩ root).result ≠ .error ⟨path, .depthLimit limit⟩) := by
  refine ⟨?_, fun path limit h => descends_of_depthLimit h, fun hdepth => ne_depthLimit hdepth⟩
  intro d' hd hnone
  rcases cutOff_generate m policy root hd with h | ⟨path, limit, h⟩
  · exact h.symm
  · exact absurd h (hnone path limit)

/-- A model with a class in lists of a class in a class. -/
def nestedParts : Model :=
  ⟨⟨[⟨"Bolt", [⟨"length", ["int"]⟩]⟩, ⟨"Wheel", [⟨"bolts", ["array<Bolt>|null"]⟩]⟩, ⟨"Cart", [⟨"wheel", ["Wheel"]⟩]⟩],
    by decide, by decide⟩, ⟨[], List.nodup_nil⟩⟩

theorem generate_maxDepth_nestedParts :
    nestedParts.generate ⟨7, .firstElement⟩ "Cart" = nestedParts.generate ⟨2, .firstElement⟩ "Cart" ∧
      (∃ path, (nestedParts.generate ⟨1, .firstElement⟩ "Cart").result = .error ⟨path, .depthLimit 1⟩ ∧
        ∃ steps, path.steps = .name "Cart" :: steps ∧ steps.countP PathStep.isName = 1 + 1) := by
  obtain ⟨hgreater, -, hnever⟩ := generate_maxDepth nestedParts .firstElement "Cart" 2
  have hcut : (nestedParts.generate ⟨1, .firstElement⟩ "Cart").result =
      .error ⟨.items (.property (.property (.root "Cart") "wheel") "bolts"), .depthLimit 1⟩ := by
    decide +kernel
  refine ⟨hgreater 7 (by decide) (hnever (by decide)), _, hcut, ?_⟩
  exact ((generate_maxDepth nestedParts .firstElement "Cart" 1).2.1 _ _ hcut).2

end Model

end ClassSchema
