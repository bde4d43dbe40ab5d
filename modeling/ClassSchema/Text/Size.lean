/-!
# Sizes of texts

The size of a text is the number of its bytes in UTF-8. Two texts one after the other have the sum of their sizes
(`utf8Length_append`), and no text has fewer bytes than characters (`length_le_utf8Length`). A text can be cut after a
number of bytes if no character is cut by it: after the size of its first part, it is cut into its parts
(`dropBytes?_append`, `takeBytes?_append`).
-/

namespace ClassSchema

/-- The number of bytes of a text in UTF-8. -/
def utf8Length : List Char → Nat
  | [] => 0
  | c :: cs => c.utf8Size + utf8Length cs

theorem utf8Length_append (as bs : List Char) : utf8Length (as ++ bs) = utf8Length as + utf8Length bs := by
  induction as with
  | nil => simp [utf8Length]
  | cons a as ih => rw [List.cons_append, utf8Length, utf8Length, ih, Nat.add_assoc]

theorem length_le_utf8Length (cs : List Char) : cs.length ≤ utf8Length cs := by
  induction cs with
  | nil => exact Nat.le_refl 0
  | cons c cs ih =>
    have := c.utf8Size_pos
    rw [List.length_cons, utf8Length]
    omega

/-- The rest of a text after a number of bytes, if no character is cut. -/
def dropBytes? : Nat → List Char → Option (List Char)
  | 0, cs => some cs
  | _ + 1, [] => none
  | n + 1, c :: cs => if c.utf8Size ≤ n + 1 then dropBytes? (n + 1 - c.utf8Size) cs else none

/-- The first bytes of a text, if no character is cut. -/
def takeBytes? (n : Nat) (cs : List Char) : Option (List Char) :=
  (dropBytes? n cs).map fun rest => cs.take (cs.length - rest.length)

theorem dropBytes?_append (as bs : List Char) : dropBytes? (utf8Length as) (as ++ bs) = some bs := by
  induction as with
  | nil => simp [utf8Length, dropBytes?]
  | cons a as ih =>
    have hpos := a.utf8Size_pos
    obtain ⟨n, hn⟩ : ∃ n, utf8Length (a :: as) = n + 1 := ⟨utf8Length (a :: as) - 1, by rw [utf8Length]; omega⟩
    have hrest : n + 1 - a.utf8Size = utf8Length as := by rw [← hn, utf8Length]; omega
    have hle : a.utf8Size ≤ n + 1 := by rw [← hn, utf8Length]; omega
    rw [hn, List.cons_append, dropBytes?, if_pos hle, hrest, ih]

theorem takeBytes?_append (as bs : List Char) : takeBytes? (utf8Length as) (as ++ bs) = some as := by
  simp [takeBytes?, dropBytes?_append]

end ClassSchema
