/-!
# White space

The characters of Unicode's `White_Space` property, and the text that is left when a run of them
is cut off at either end.
-/

namespace SharedHeap.Text

/-- The 25 characters of the property `White_Space`. -/
def isBlank (c : Char) : Bool :=
  let n := c.toNat
  (0x9 ≤ n && n ≤ 0xd) || n == 0x20 || n == 0x85 || n == 0xa0 || n == 0x1680 ||
  (0x2000 ≤ n && n ≤ 0x200a) || n == 0x2028 || n == 0x2029 || n == 0x202f || n == 0x205f ||
  n == 0x3000

def trimStart (cs : List Char) : List Char := cs.dropWhile isBlank

def trimEnd (cs : List Char) : List Char := (cs.reverse.dropWhile isBlank).reverse

/-- A text without the white space at its two ends. -/
def trim (cs : List Char) : List Char := trimEnd (trimStart cs)

/-- Nothing but white space is cut off in front. -/
theorem takeWhile_append_trimStart (cs : List Char) :
    cs.takeWhile isBlank ++ trimStart cs = cs := List.takeWhile_append_dropWhile

/-- Nothing but white space is cut off at the end. -/
theorem trimEnd_append_takeWhile (cs : List Char) :
    trimEnd cs ++ (cs.reverse.takeWhile isBlank).reverse = cs := by
  rw [trimEnd, ← List.reverse_append, List.takeWhile_append_dropWhile, List.reverse_reverse]

theorem trimStart_of_head {c : Char} {cs : List Char} (h : isBlank c = false) :
    trimStart (c :: cs) = c :: cs := by simp [trimStart, h]

theorem trimEnd_concat {c : Char} {cs : List Char} (h : isBlank c = false) :
    trimEnd (cs ++ [c]) = cs ++ [c] := by simp [trimEnd, h]

/-- The white space in front does not count. -/
theorem trim_blank_append {ws cs : List Char} (h : ∀ c ∈ ws, isBlank c) :
    trim (ws ++ cs) = trim cs := by
  induction ws with
  | nil => rfl
  | cons w ws ih =>
    have hw : isBlank w = true := h w (by simp)
    have : trimStart (w :: (ws ++ cs)) = trimStart (ws ++ cs) := by simp [trimStart, hw]
    rw [List.cons_append, trim, this]
    exact ih fun c hc => h c (by simp [hc])

/-- The text `s` without the white space at its two ends. -/
def trimmed (s : String) : String := .ofList (trim s.toList)

end SharedHeap.Text
