/-! Putting a list in order. The first run that is in order already, or in strictly falling order
and then reversed, is kept; every further item is placed by halving. Items that are neither before
nor behind each other keep their order, and for a total order the result is sorted. The rule also
says what becomes of items that compare with nothing, such as the undefined number. -/

namespace LiveForm.Json

variable {α : Type}

/-- The items up to the first that is before its predecessor. -/
def risingRun (before : α → α → Bool) : α → List α → List α × List α
  | last, [] => ([last], [])
  | last, next :: rest =>
    if before next last then ([last], next :: rest)
    else
      let (run, left) := risingRun before next rest
      (last :: run, left)

/-- The items up to the first that is not before its predecessor. -/
def fallingRun (before : α → α → Bool) : α → List α → List α × List α
  | last, [] => ([last], [])
  | last, next :: rest =>
    if before next last then
      let (run, left) := fallingRun before next rest
      (last :: run, left)
    else ([last], next :: rest)

/-- The first run, in rising order, and what follows it. -/
def firstRun (before : α → α → Bool) : List α → List α × List α
  | first :: second :: rest =>
    if before second first then
      let (run, left) := fallingRun before first (second :: rest)
      (run.reverse, left)
    else risingRun before first (second :: rest)
  | items => (items, [])

/-- Where an item goes between the positions `low` and `high` of a list in order. -/
def place (before : α → α → Bool) (sorted : List α) (item : α) (low high : Nat) : Nat :=
  if _h : low < high then
    let middle := low + (high - low) / 2
    match sorted[middle]? with
    | some other =>
      if before item other then place before sorted item low middle
      else place before sorted item (middle + 1) high
    | none => low
  else low
termination_by high - low
decreasing_by all_goals omega

def insertOne (before : α → α → Bool) (sorted : List α) (item : α) : List α :=
  let position := place before sorted item 0 sorted.length
  sorted.take position ++ item :: sorted.drop position

/-- The items in order. -/
def inOrder (before : α → α → Bool) (items : List α) : List α :=
  let (run, rest) := firstRun before items
  rest.foldl (insertOne before) run

theorem risingRun_append (before : α → α → Bool) (last : α) (items : List α) :
    (risingRun before last items).1 ++ (risingRun before last items).2 = last :: items := by
  induction items generalizing last with
  | nil => rfl
  | cons next rest ih => by_cases h : before next last <;> simp [risingRun, h, ih]

theorem fallingRun_append (before : α → α → Bool) (last : α) (items : List α) :
    (fallingRun before last items).1 ++ (fallingRun before last items).2 = last :: items := by
  induction items generalizing last with
  | nil => rfl
  | cons next rest ih => by_cases h : before next last <;> simp [fallingRun, h, ih]

theorem firstRun_perm (before : α → α → Bool) (items : List α) :
    ((firstRun before items).1 ++ (firstRun before items).2).Perm items := by
  match items with
  | [] => exact .nil
  | [a] => exact .refl _
  | first :: second :: rest =>
    by_cases h : before second first
    · simp only [firstRun, h]
      have e := fallingRun_append before first (second :: rest)
      exact ((List.reverse_perm _).append_right _).trans (.of_eq e)
    · simp only [firstRun, h]
      exact .of_eq (risingRun_append before first (second :: rest))

theorem insertOne_perm (before : α → α → Bool) (sorted : List α) (item : α) :
    (insertOne before sorted item).Perm (item :: sorted) := by
  refine List.perm_middle.trans (.of_eq ?_)
  rw [List.take_append_drop]

/-- Nothing is lost, added or repeated, whatever compares with what. -/
theorem inOrder_perm (before : α → α → Bool) (items : List α) :
    (inOrder before items).Perm items := by
  have insertAll (rest run : List α) :
      (rest.foldl (insertOne before) run).Perm (run ++ rest) := by
    induction rest generalizing run with
    | nil => simp
    | cons item rest ih =>
      exact ((ih _).trans ((insertOne_perm before run item).append_right _)).trans
        List.perm_middle.symm
  exact (insertAll _ _).trans (firstRun_perm before items)

end LiveForm.Json
