import FlatScript.Frame

/-!
# Updates of frames

A frame changes by updates only: a variable is assigned, a function declared, or a return value
recorded.  Each update writes one cell of the frame, and it writes the same whatever the frame held.
So a list of updates gives a cell one content in all frames, or leaves it alone in all of them.
-/

namespace FlatScript

/-- A change of a frame. -/
inductive Frame.Update where
  | assign (name : String) (value : Value)
  | declare (declaration : Declaration Node)
  | setPending (value : Value)

namespace Frame

/-- The frame after an update. -/
def apply (frame : Frame) : Update → Frame
  | .assign name value => frame.assign name value
  | .declare declaration => frame.declare declaration
  | .setPending value => frame.setPending value

/-- The frame after several updates, the first of the list first. -/
def applyAll (frame : Frame) (updates : List Update) : Frame :=
  updates.foldl apply frame

@[simp] theorem applyAll_nil (frame : Frame) : frame.applyAll [] = frame := rfl

/-- Updates are made one after another. -/
theorem applyAll_append (frame : Frame) (first second : List Update) :
    frame.applyAll (first ++ second) = (frame.applyAll first).applyAll second :=
  List.foldl_append

/-! ### Cells -/

/-- The places of a frame that can be looked up. -/
inductive Cell where
  | var (name : String)
  | function (name : String)
  | pending

/-- What a cell holds. -/
abbrev Cell.Content : Cell → Type
  | .var _ => Value
  | .function _ => Declaration Node
  | .pending => Value

/-- What a frame has in a cell. -/
def Cell.look : (cell : Cell) → Frame → Option cell.Content
  | .var name, frame => frame.vars[name]?
  | .function name, frame => frame.functions[name]?
  | .pending, frame => frame.pending

/-- The cell that an update writes. -/
def Update.cell : Update → Cell
  | .assign name _ => .var name
  | .declare declaration => .function declaration.name
  | .setPending _ => .pending

/-- An update writes its cell, and every other one stays as it is. -/
theorem look_apply (cell : Cell) (update : Update) :
    (update.cell = cell ∧
      ∃ content, ∀ frame : Frame, cell.look (frame.apply update) = some content) ∨
      ∀ frame : Frame, cell.look (frame.apply update) = cell.look frame := by
  cases update with
  | assign target value =>
      cases cell with
      | var name =>
          by_cases htarget : target = name
          · subst htarget
            exact Or.inl ⟨rfl, value, fun frame => Std.TreeMap.getElem?_insert_self⟩
          · refine Or.inr fun frame => ?_
            simp [Cell.look, apply, assign, Std.TreeMap.getElem?_insert, htarget]
      | function | pending => exact Or.inr fun _ => rfl
  | declare declaration =>
      cases cell with
      | function name =>
          by_cases hname : declaration.name = name
          · subst hname
            exact Or.inl ⟨rfl, declaration, fun frame => Std.TreeMap.getElem?_insert_self⟩
          · refine Or.inr fun frame => ?_
            simp [Cell.look, apply, declare, Std.TreeMap.getElem?_insert, hname]
      | var | pending => exact Or.inr fun _ => rfl
  | setPending value =>
      cases cell with
      | pending => exact Or.inl ⟨rfl, value, fun _ => rfl⟩
      | var | function => exact Or.inr fun _ => rfl

/-- Updates give a cell the same content in every frame, or leave it as it is in every frame. -/
theorem look_applyAll (cell : Cell) (updates : List Update) :
    ((∃ update ∈ updates, update.cell = cell) ∧
      ∃ content, ∀ frame : Frame, cell.look (frame.applyAll updates) = some content) ∨
      ∀ frame : Frame, cell.look (frame.applyAll updates) = cell.look frame := by
  induction updates with
  | nil => exact Or.inr fun _ => rfl
  | cons update updates ih =>
      rcases ih with ⟨⟨later, hlater, hcell⟩, content, hcontent⟩ | hkeep
      · exact Or.inl ⟨⟨later, List.mem_cons_of_mem _ hlater, hcell⟩, content,
          fun frame => hcontent (frame.apply update)⟩
      · rcases look_apply cell update with ⟨hcell, content, hcontent⟩ | hsame
        · exact Or.inl ⟨⟨update, List.mem_cons_self, hcell⟩, content,
            fun frame => (hkeep (frame.apply update)).trans (hcontent frame)⟩
        · exact Or.inr fun frame => (hkeep (frame.apply update)).trans (hsame frame)

/-- Two frames have received the same updates: in every cell, both have the same new content, or
each has what it had before. -/
structure SameUpdates (first after second after' : Frame) : Prop where
  updates : ∃ updates, after = first.applyAll updates ∧ after' = second.applyAll updates
  cells : ∀ cell : Cell,
    (∃ content, cell.look after = some content ∧ cell.look after' = some content) ∨
      (cell.look after = cell.look first ∧ cell.look after' = cell.look second)

/-- The same updates leave the same marks on any two frames. -/
theorem sameUpdates_applyAll (first second : Frame) (updates : List Update) :
    SameUpdates first (first.applyAll updates) second (second.applyAll updates) := by
  refine ⟨⟨updates, rfl, rfl⟩, fun cell => ?_⟩
  rcases look_applyAll cell updates with ⟨-, content, hcontent⟩ | hkeep
  · exact Or.inl ⟨content, hcontent first, hcontent second⟩
  · exact Or.inr ⟨hkeep first, hkeep second⟩

end Frame

end FlatScript
