import LiveForm.Proofs.Cells
import LiveForm.Proofs.Except
import LiveForm.Template

/-! # What a template looks up

A text depends on the values only through the paths that its tokens look up. Of lists it matters less:
a token that is a list, and the helpers that count, do not see what the mappings in it hold. A path that
is a key names the value under it; otherwise its first part is looked up, and when that is a key itself
no weaker kind of match is tried. -/

namespace LiveForm.Template

/-! ## The paths of a text -/

/-- Whether an argument of a helper is looked up: it is neither quoted nor a number. -/
def isPath (arg : String) : Bool :=
  (unquoted? arg).isNone && !arg.isEmpty &&
    match number? arg with
    | .ok none => true
    | _ => false

/-- The helpers that only count what a list holds. -/
def measures : List String := ["length", "count"]

/-- The paths that a token looks up: its own text, or arguments of a helper. -/
def paths (settings : Settings) (token : String) : List String :=
  if token.isEmpty then []
  else
    match if settings.templateFunctions then call? token else none with
    | some (name, body) => if helperNames.contains name then (splitArgs body).filter isPath else []
    | none => [token]

/-- The paths of a token that are arguments of a helper which looks into lists. -/
def searched (settings : Settings) (token : String) : List String :=
  match if settings.templateFunctions then call? token else none with
  | some (name, body) => if measures.contains name then [] else (splitArgs body).filter isPath
  | none => []

def tokensOf (text : String) : List String := (pieces text).filterMap Piece.token?

/-- The paths that the tokens of a text look up. -/
def lookups (settings : Settings) (text : String) : List String :=
  (tokensOf text).flatMap (paths settings)

/-- The paths of a text that are arguments of a helper which looks into lists. -/
def searches (settings : Settings) (text : String) : List String :=
  (tokensOf text).flatMap (searched settings)

/-- What a path stands for: the value that it leads to, or null when it leads nowhere. -/
def valueAt (m : Mapping) (path : String) : Except Abort Value := do
  return (← resolvePath path m).getD .null

/-! ## Values of one shape -/

/-- Two rows are the same, or mappings both. -/
def SameRow (v w : Value) : Prop :=
  v = w ∨ (∃ cells, v = .mapping cells) ∧ ∃ cells, w = .mapping cells

/-- Two values are the same, or lists that start with a mapping and differ only in what mappings among
their rows hold. -/
inductive SameShape : Value → Value → Prop
  | same (v : Value) : SameShape v v
  | rows {first first' : List (Key × Value)} {rest rest' : List Value}
      (h : List.Forall₂ SameRow rest rest') :
      SameShape (.list (.mapping first :: rest)) (.list (.mapping first' :: rest'))

section Shape

variable {room : Nat} {settings : Settings} {v w : Value} {args args' rows rows' : List Value}

theorem formatValueWithin_of_sameShape (h : SameShape v w) :
    formatValueWithin room settings v = formatValueWithin room settings w := by
  cases h with
  | same => rfl
  | rows h => simp only [formatValueWithin, List.length_cons, h.length_eq]

theorem length_of_sameShape (h : SameShape v w) : Aggregate.length v = Aggregate.length w := by
  cases h with
  | same => rfl
  | rows h => simp only [Aggregate.length, List.length_cons, h.length_eq]

theorem countP_of_sameRow (h : List.Forall₂ SameRow rows rows') :
    rows.countP Aggregate.isPresent = rows'.countP Aggregate.isPresent := by
  induction h with
  | nil => rfl
  | cons hrow _ ih =>
    obtain rfl | ⟨⟨cells, rfl⟩, cells', rfl⟩ := hrow
    · rw [List.countP_cons, List.countP_cons, ih]
    · rw [List.countP_cons, List.countP_cons, ih]
      rfl

theorem count_of_sameShape (h : List.Forall₂ SameShape args args') :
    Aggregate.count args = Aggregate.count args' := by
  unfold Aggregate.count
  generalize 0 = n
  induction h generalizing n with
  | nil => rfl
  | cons harg _ ih =>
    rw [List.foldl_cons, List.foldl_cons]
    cases harg with
    | same v => exact ih _
    | rows h =>
      dsimp only
      rw [countP_of_sameRow (.cons (.inr ⟨⟨_, rfl⟩, _, rfl⟩) h)]
      exact ih _

/-- A helper that only counts gives the same for values of one shape. -/
theorem helper_of_sameShape {name : String} (hname : name ∈ measures)
    (h : List.Forall₂ SameShape args args') : helper room name args = helper room name args' := by
  simp only [measures, List.mem_cons, List.not_mem_nil, or_false] at hname
  obtain rfl | rfl := hname
  · simp only [helper, if_pos]
    cases h with
    | nil => rfl
    | cons harg _ => simp [length_of_sameShape harg]
  · have hne : ¬"count" = "length" ∧ ¬"count" = "sum" := by decide
    simp only [helper, if_neg hne.1, if_neg hne.2, if_pos, count_of_sameShape h]

theorem sameRow_of_rowsRewritten {array : String} {written : String → Prop}
    {value : String → Option Value} (h : RowsRewritten array written value rows rows') :
    List.Forall₂ SameRow rows rows' := by
  refine List.forall₂_iff_get.mpr ⟨h.length_eq.symm, fun i hi hi' => ?_⟩
  have hget : rows'[i]? = some (rows'.get ⟨i, hi'⟩) := List.getElem?_eq_getElem hi'
  have hrow : rows[i]? = some (rows.get ⟨i, hi⟩) := List.getElem?_eq_getElem hi
  by_cases hcells : ∃ cells, rows.get ⟨i, hi⟩ = .mapping cells
  · obtain ⟨cells, hcells⟩ := hcells
    obtain ⟨cells', hrow', -⟩ := h.mapping i cells (hcells ▸ hrow)
    exact .inr ⟨⟨cells, hcells⟩, cells', Option.some.inj (hget.symm.trans hrow')⟩
  · have hrow' := h.other i _ hrow fun cells hc => hcells ⟨cells, hc⟩
    exact .inl (Option.some.inj (hrow'.symm.trans hget))

/-- A list that starts with a mapping keeps its shape when cells of it are written. -/
theorem sameShape_of_rowsRewritten {array : String} {written : String → Prop}
    {value : String → Option Value} {first : List (Key × Value)}
    (h : RowsRewritten array written value (.mapping first :: rows) rows') :
    SameShape (.list (.mapping first :: rows)) (.list rows') := by
  obtain ⟨row, rest, hrow, hrest, rfl⟩ :=
    List.forall₂_cons_left_iff.mp (sameRow_of_rowsRewritten h)
  obtain rfl | ⟨-, cells, rfl⟩ := hrow
  · exact .rows hrest
  · exact .rows hrest

end Shape

/-! ## Texts that look up the same -/

section Congr

variable {room : Nat} {settings : Settings} {m m' : Mapping}

/-- A path stands for the same in two mappings; for values of one shape, if no helper looks into them. -/
def Agrees (m m' : Mapping) (searches : List String) (path : String) : Prop :=
  valueAt m' path = valueAt m path ∨
    path ∉ searches ∧ Related SameShape (valueAt m' path) (valueAt m path)

theorem Agrees.related {searches : List String} {path : String} (h : Agrees m m' searches path) :
    Related SameShape (valueAt m' path) (valueAt m path) := by
  obtain h | ⟨-, h⟩ := h
  · exact .of_eq .same h
  · exact h

theorem argument_related {R : Value → Value → Prop} (hrefl : ∀ v, R v v) {arg : String}
    (h : isPath arg → Related R (valueAt m' arg) (valueAt m arg)) :
    Related R (argument m' arg) (argument m arg) := by
  unfold argument
  cases hquoted : unquoted? arg with
  | some v => exact hrefl v
  | none =>
    cases hnumber : number? arg with
    | error c => exact rfl
    | ok v? =>
      cases v? with
      | some v => exact hrefl v
      | none =>
        by_cases hempty : arg.isEmpty
        · simp only [hempty, if_true]
          exact hrefl .null
        · have hvalue := h (by simp [isPath, hquoted, hnumber, hempty])
          unfold valueAt at hvalue
          simpa [hempty, bind, Except.bind] using hvalue

theorem resolve_congr {token : String}
    (h : ∀ path ∈ paths settings token, Agrees m m' (searched settings token) path) :
    (resolve room settings token m' >>= formatValueWithin room settings) =
      resolve room settings token m >>= formatValueWithin room settings := by
  unfold resolve
  unfold paths searched at h
  by_cases hempty : token.isEmpty
  · rw [if_pos hempty, if_pos hempty]
  rw [if_neg hempty] at h ⊢
  rw [if_neg hempty]
  cases hcall : (if settings.templateFunctions then call? token else none) with
  | none =>
    rw [hcall] at h
    exact (h token (List.mem_singleton.mpr rfl)).related.bind_eq fun _ _ =>
      formatValueWithin_of_sameShape
  | some call =>
    obtain ⟨name, body⟩ := call
    rw [hcall] at h
    dsimp only at h ⊢
    split
    · rename_i hname
      rw [if_pos hname] at h
      have hmem {arg : String} (harg : arg ∈ splitArgs body) (hpath : isPath arg) :
          arg ∈ (splitArgs body).filter isPath := List.mem_filter.mpr ⟨harg, hpath⟩
      by_cases hmeasure : name ∈ measures
      · have hargs : Related (List.Forall₂ SameShape) ((splitArgs body).mapM (argument m'))
            ((splitArgs body).mapM (argument m)) :=
          .mapM fun arg harg => argument_related .same fun hpath => (h arg (hmem harg hpath)).related
        rw [hargs.bind_eq fun _ _ => helper_of_sameShape hmeasure]
      · have hargs : Related (List.Forall₂ Eq) ((splitArgs body).mapM (argument m'))
            ((splitArgs body).mapM (argument m)) := by
          refine .mapM fun arg harg => argument_related (fun _ => rfl) fun hpath => ?_
          refine .of_eq (fun _ => rfl) ((h arg (hmem harg hpath)).resolve_right fun hno => hno.1 ?_)
          simpa [hmeasure] using hmem harg hpath
        rw [hargs.bind_eq fun _ _ heq => congrArg (helper room name) (List.forall₂_eq_eq_eq ▸ heq)]
    · rfl

/-- Values in which the paths of a text stand for the same give the same text. -/
theorem renderWithin_congr {text : String}
    (h : ∀ path ∈ lookups settings text, Agrees m m' (searches settings text) path) :
    renderWithin room settings text m' = renderWithin room settings text m := by
  have hpieces : (pieces text).mapM (renderPiece room settings m') =
      (pieces text).mapM (renderPiece room settings m) := by
    refine mapM_congr fun piece hpiece => ?_
    cases piece with
    | literal c => rfl
    | token body =>
      have htoken : String.ofList body ∈ tokensOf text := List.mem_filterMap.mpr ⟨_, hpiece, rfl⟩
      refine resolve_congr fun path hpath => ?_
      refine (h path (List.mem_flatMap.mpr ⟨_, htoken, hpath⟩)).imp_right fun hno => ⟨?_, hno.2⟩
      exact fun hsearched => hno.1 (List.mem_flatMap.mpr ⟨_, htoken, hsearched⟩)
  rw [renderWithin, hpieces, ← renderWithin]

end Congr

/-! ## Where a path leads -/

section Lookup

variable {m : Mapping} {name path key : String} {v : Value} {rest : List String}

/-- A name that is a key is found as that key. -/
theorem lookupKey?_of_get? (h : m.get? (.text name) = some v) : lookupKey? m name = some name := by
  have hmem : name ∈ m.keys.filterMap Key.text? :=
    List.mem_filterMap.mpr ⟨.text name, List.mem_map.mpr ⟨_, mem_of_lookup_text h, rfl⟩, rfl⟩
  have hfound : (m.keys.filterMap Key.text?).find? (Match.sameCase.holds name) = some name := by
    have hsome : ((m.keys.filterMap Key.text?).find? (Match.sameCase.holds name)).isSome :=
      List.find?_isSome.mpr ⟨name, hmem, beq_self_eq_true name⟩
    obtain ⟨key, hkey⟩ := Option.isSome_iff_exists.mp hsome
    have hsame : Match.sameCase.holds name key := List.find?_some hkey
    rw [hkey, eq_of_beq (show key == name from hsame)]
  simp only [lookupKey?, Match.all, List.findSome?_cons, hfound]

theorem step_of_lookupKey? (hkey : lookupKey? m name = some key)
    (h : m.get? (.text key) = some v) : step (.ofMapping m) name = .ok (some v) := by
  unfold step Value.ofMapping
  dsimp only
  rw [show lookupKey? ⟨m.entries⟩ name = some key from hkey]
  exact congrArg Except.ok h

theorem valueAt_of_get? (h : m.get? (.text path) = some v) : valueAt m path = .ok v := by
  unfold valueAt
  rw [resolvePath, h]
  rfl

/-- A path that is no key leads on from what its first part is found as. -/
theorem valueAt_of_lookupKey? (hpath : m.get? (.text path) = none)
    (hsplit : splitPath path = name :: rest) (hkey : lookupKey? m name = some key)
    (h : m.get? (.text key) = some v) :
    valueAt m path = (fun w? => w?.getD .null) <$> walk rest v := by
  unfold valueAt
  rw [resolvePath, hpath]
  dsimp only
  rw [hsplit, walk, step_of_lookupKey? hkey h]
  show (walk rest v >>= fun w? => pure (w?.getD .null)) = _
  cases walk rest v <;> rfl

theorem valueAt_of_head (hpath : m.get? (.text path) = none)
    (hsplit : splitPath path = name :: rest) (h : m.get? (.text name) = some v) :
    valueAt m path = (fun w? => w?.getD .null) <$> walk rest v :=
  valueAt_of_lookupKey? hpath hsplit (lookupKey?_of_get? h) h

/-- A path whose first part is found nowhere leads nowhere; the name of a length is the exception. -/
theorem valueAt_of_missing (hpath : m.get? (.text path) = none)
    (hsplit : splitPath path = name :: rest) (hkey : lookupKey? m name = none)
    (hlength : name ≠ "length") : valueAt m path = .ok .null := by
  have hstep : step (.ofMapping m) name = .ok none := by
    unfold step Value.ofMapping
    dsimp only
    rw [show lookupKey? ⟨m.entries⟩ name = none from hkey]
    exact congrArg Except.ok (if_neg hlength)
  unfold valueAt
  rw [resolvePath, hpath]
  dsimp only
  rw [hsplit, walk, hstep]
  rfl

/-- Nothing leads on from null. -/
theorem walk_null : (fun w? => w?.getD .null) <$> walk rest .null = .ok .null := by
  cases rest <;> rfl

/-- The name of a length is no index. -/
theorem ne_length_of_index? {index : String} {i : Nat} (h : index? index = .ok (some i)) :
    index ≠ "length" := by
  rintro rfl
  have hnone : index? "length" = .ok none := by decide +kernel
  rw [hnone] at h
  cases h

/-- The way to a cell: into a row of a list, and there to a key of the row. -/
theorem walk_cell {rows : List Value} {cells : List (Key × Value)} {index child : String} {i : Nat}
    (hindex : index? index = .ok (some i)) (hrow : rows[i]? = some (.mapping cells))
    (hcell : cells.lookup (.text child) = some v) :
    walk (index :: child :: rest) (.list rows) = walk rest v := by
  have hstep : step (.list rows) index = .ok (some (.mapping cells)) := by
    simp only [step, if_neg (ne_length_of_index? hindex), hindex]
    exact congrArg Except.ok hrow
  have hchild : step (.mapping cells) child = .ok (some v) :=
    step_of_lookupKey? (m := ⟨cells⟩) (lookupKey?_of_get? hcell) hcell
  rw [walk, hstep]
  dsimp only [bind, Except.bind]
  rw [walk, hchild]
  rfl

/-- A way into the rows of a list that passes none of the written cells: to the length of the list, or
to another cell of a row and from there on. -/
inductive Past (written : Nat → String → Prop) (rows : List Value) : List String → Prop
  | length (rest : List String) : Past written rows ("length" :: rest)
  | cell {index child : String} {i : Nat} {cells : List (Key × Value)} {v : Value}
      (rest : List String) (hindex : index? index = .ok (some i))
      (hrow : rows[i]? = some (.mapping cells)) (hcell : cells.lookup (.text child) = some v)
      (hfree : ¬written i child) : Past written rows (index :: child :: rest)

/-- Such a way leads to the same once the cells are written. -/
theorem Past.walk_eq {array : String} {written : String → Prop} {value : String → Option Value}
    {rows rows' : List Value} {way : List String}
    (h : Past (fun i c => ∃ f, written f ∧ RowRef.parse? f = .ok (some ⟨array, i, c⟩)) rows way)
    (hrows : RowsRewritten array written value rows rows') :
    walk way (.list rows') = walk way (.list rows) := by
  cases h with
  | length rest => simp only [walk, step, if_pos, hrows.length_eq]
  | @cell _ child _ cells v rest hindex hrow hcell hfree =>
    obtain ⟨cells', hrow', hcells⟩ := hrows.mapping _ cells hrow
    have hcell' : cells'.lookup (.text child) = some v := by
      obtain hsame | ⟨f, c, -, hf, hparse, hc, -⟩ := hcells (.text child)
      · exact hsame.trans hcell
      · obtain rfl := Key.text.inj hc
        exact absurd ⟨f, hf, hparse⟩ hfree
    rw [walk_cell hindex hrow hcell, walk_cell hindex hrow' hcell']

end Lookup

end LiveForm.Template
