/-
Workflow.Text.Dotted — words joined by dots.

Splitting undoes joining for every nonempty list of words without dots
(`splitChars_joinChars`).

Paths of patches are such texts. A word of a path that holds a dot itself
would be read as two, which is why the lemmas ask for words without dots.
-/
namespace Workflow.Text

/-- The words between the separators: one more than there are
separators. -/
def splitChars (separator : Char) : List Char → List (List Char)
  | [] => [[]]
  | c :: cs =>
    if c = separator then [] :: splitChars separator cs
    else match splitChars separator cs with
      | [] => [[c]]
      | word :: words => (c :: word) :: words

/-- The words with a separator between each two. -/
def joinChars (separator : Char) : List (List Char) → List Char
  | [] => []
  | [word] => word
  | word :: words => word ++ separator :: joinChars separator words

def splitDots (text : String) : List String :=
  (splitChars '.' text.toList).map String.ofList

def joinDots (words : List String) : String :=
  String.ofList (joinChars '.' (words.map String.toList))

theorem joinChars_cons {separator : Char} {word : List Char} {words : List (List Char)}
    (h : words ≠ []) :
    joinChars separator (word :: words) = word ++ separator :: joinChars separator words := by
  cases words with
  | nil => exact absurd rfl h
  | cons w ws => rfl

/-- A text without a separator is one word. -/
theorem splitChars_of_not_mem {separator : Char} {word : List Char} (h : separator ∉ word) :
    splitChars separator word = [word] := by
  induction word with
  | nil => rfl
  | cons c cs ih =>
    simp only [List.mem_cons, not_or] at h
    simp [splitChars, Ne.symm h.1, ih h.2]

/-- The first word ends at the first separator. -/
theorem splitChars_append {separator : Char} {word rest : List Char} (h : separator ∉ word) :
    splitChars separator (word ++ separator :: rest) = word :: splitChars separator rest := by
  induction word with
  | nil => simp [splitChars]
  | cons c cs ih =>
    simp only [List.mem_cons, not_or] at h
    simp [splitChars, Ne.symm h.1, ih h.2]

/-- Words without separators are found again in what joins them. -/
theorem splitChars_joinChars {separator : Char} {words : List (List Char)} (hne : words ≠ [])
    (h : ∀ word ∈ words, separator ∉ word) :
    splitChars separator (joinChars separator words) = words := by
  induction words with
  | nil => exact absurd rfl hne
  | cons word words ih =>
    cases words with
    | nil => exact splitChars_of_not_mem (h word (by simp))
    | cons w ws =>
      rw [joinChars_cons (by simp), splitChars_append (h word (by simp)),
        ih (by simp) (fun v hv => h v (List.mem_cons_of_mem _ hv))]

end Workflow.Text
