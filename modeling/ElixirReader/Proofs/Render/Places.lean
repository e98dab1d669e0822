import ElixirReader.Render.Construct

/-
  This file takes from written terms what their calls tell about
  themselves, but for whether they have parentheses. How a term
  is looked at, and how it is written next to others, does not
  depend on the rest.

  Key definitions include:
    * `Written.isBareMark`
    * `Written.muted`

  Main declarations:
    * `Written.call?_muted`
    * `Written.named?_muted`
    * `Written.keyed?_muted`
    * `Written.operand_muted`
    * `Written.arguments_muted`
    * `Written.listText_muted`
-/

namespace ElixirReader.Written

------------------------------------------------------------
-- Pieces
------------------------------------------------------------

def atom? : Written → Option String
| .atom name => some name
| _ => none

def items? : Written → Option (List Written)
| .list _ items => some items
| _ => none

def couple? : Written → Option (Written × Written)
| .tuple _ [first, second] => some (first, second)
| _ => none

theorem args?_eq
    (w : Written) :
    w.args? = w.call?.bind fun (_, _, args) => args.items? := by
  unfold args?
  split
  · rfl
  · rename_i hOther
    unfold call?
    split
    · rename_i name content metadata args
      cases args with
      | list text items => exact (hOther _ _ _ _ _ _ rfl).elim
      | _ => rfl
    · rfl

theorem named?_eq
    (w : Written) :
    w.named? = w.call?.bind fun (name, _, args) =>
      name.atom?.bind fun n => args.items?.map fun items =>
        (n, items) := by
  unfold named?
  split
  · rfl
  · rename_i hOther
    unfold call?
    split
    · rename_i name content metadata args
      cases name with
      | atom name =>
          cases args with
          | list text items => exact (hOther _ _ _ _ _ _ rfl).elim
          | _ => rfl
      | _ => rfl
    · rfl

theorem keyed?_eq
    (w : Written) :
    w.keyed? = w.couple?.bind fun (key, value) =>
      key.atom?.map fun k => (k, value) := by
  unfold keyed?
  split
  · rfl
  · rename_i hOther
    unfold couple?
    split
    · rename_i key value
      cases key with
      | atom name => exact (hOther _ _ _ rfl).elim
      | _ => rfl
    · rfl

------------------------------------------------------------
-- Places
------------------------------------------------------------

/- Whether an entry of metadata says that there are no parentheses. -/
def isBareMark
    (w : Written) : Bool :=
  w.couple?.any fun (key, value) =>
    key.isAtom "no_parens" && value.isAtom "true"

theorem isBare_eq
    (metadata : List Written) :
    isBare metadata = metadata.any isBareMark := by
  have hMark : (fun w : Written =>
      match w with
      | .tuple _ [key, value] =>
          key.isAtom "no_parens" && value.isAtom "true"
      | _ => false) = isBareMark := by
    funext w
    unfold isBareMark couple?
    split <;> rfl
  rw [← hMark]
  rfl

/- The parts of a tuple; in a call there is metadata in the middle. -/
def withoutPlace : List Written → List Written
| [name, .list _ metadata, args] =>
    [name, .list [] (metadata.filter isBareMark), args]
| items => items

/-
  A written term whose calls do not tell where they stand. The
  texts stay the ones that they are.
-/
mutual
def muted : Written → Written
| .atom name => .atom name
| .integer value => .integer value
| .float value => .float value
| .binary content => .binary content
| .list text items => .list text (allMuted items)
| .tuple text items => .tuple text (withoutPlace (allMuted items))
termination_by structural w => w

def allMuted : List Written → List Written
| [] => []
| w :: ws => w.muted :: allMuted ws
termination_by structural ws => ws
end

theorem allMuted_eq
    (ws : List Written) :
    allMuted ws = ws.map muted := by
  induction ws with
  | nil => rfl
  | cons w ws ih => rw [allMuted, ih, List.map_cons]

theorem muted_list
    (text : List Char)
    (items : List Written) :
    (Written.list text items).muted =
      .list text (items.map muted) := by
  rw [muted, allMuted_eq]

theorem muted_pair
    (text : List Char)
    (first second : Written) :
    (Written.tuple text [first, second]).muted =
      .tuple text [first.muted, second.muted] := by
  rw [muted, allMuted_eq]
  simp [withoutPlace]

theorem muted_call
    (text content : List Char)
    (name args : Written)
    (metadata : List Written) :
    (Written.tuple text [name, .list content metadata, args]).muted =
      .tuple text [name.muted,
        .list [] ((metadata.map muted).filter isBareMark),
        args.muted] := by
  rw [muted, allMuted_eq, List.map_cons, List.map_cons,
    muted_list]
  rfl

------------------------------------------------------------
-- Views
------------------------------------------------------------

@[simp]
theorem text_muted
    (w : Written) :
    w.muted.text = w.text := by
  cases w <;> rfl

@[simp]
theorem isAtom_muted
    (name : String)
    (w : Written) :
    w.muted.isAtom name = w.isAtom name := by
  cases w <;> rfl

@[simp]
theorem atom?_muted
    (w : Written) :
    w.muted.atom? = w.atom? := by
  cases w <;> rfl

@[simp]
theorem items?_muted
    (w : Written) :
    w.muted.items? = w.items?.map (List.map muted) := by
  cases w with
  | list text items =>
      rw [muted_list]
      rfl
  | _ => rfl

@[simp]
theorem couple?_muted
    (w : Written) :
    w.muted.couple? = w.couple?.map (Prod.map muted muted) := by
  rcases w with _ | _ | _ | _ | _ |
    ⟨_, _ | ⟨_, _ | ⟨second, _ | ⟨_, _ | _⟩⟩⟩⟩
  case tuple.cons.cons.nil =>
    rw [muted_pair]
    rfl
  case tuple.cons.cons.cons.nil => cases second <;> rfl
  case tuple.cons.cons.cons.cons => cases second <;> rfl
  all_goals rfl

@[simp]
theorem call?_muted
    (w : Written) :
    w.muted.call? =
      w.call?.map fun (name, metadata, args) =>
        (name.muted, (metadata.map muted).filter isBareMark,
          args.muted) := by
  rcases w with _ | _ | _ | _ | _ |
    ⟨_, _ | ⟨_, _ | ⟨second, _ | ⟨_, _ | _⟩⟩⟩⟩
  case tuple.cons.cons.cons.nil =>
    cases second with
    | list content metadata =>
        rw [muted_call]
        rfl
    | _ => rfl
  case tuple.cons.cons.nil => cases second <;> rfl
  case tuple.cons.cons.cons.cons => cases second <;> rfl
  all_goals rfl

@[simp]
theorem args?_muted
    (w : Written) :
    w.muted.args? = w.args?.map (List.map muted) := by
  rw [args?_eq, args?_eq, call?_muted]
  cases w.call? <;> simp

@[simp]
theorem named?_muted
    (w : Written) :
    w.muted.named? =
      w.named?.map (Prod.map id (List.map muted)) := by
  rw [named?_eq, named?_eq, call?_muted]
  cases w.call? with
  | none => rfl
  | some call => simp [Option.map_bind, Function.comp_def]

@[simp]
theorem argsOf?_muted
    (name : String)
    (w : Written) :
    w.muted.argsOf? name =
      (w.argsOf? name).map (List.map muted) := by
  rw [argsOf?, argsOf?, named?_muted]
  cases w.named? with
  | none => rfl
  | some call => simp [apply_ite]

@[simp]
theorem keyed?_muted
    (w : Written) :
    w.muted.keyed? =
      w.keyed?.map (Prod.map id muted) := by
  rw [keyed?_eq, keyed?_eq, couple?_muted]
  cases w.couple? with
  | none => rfl
  | some pair => simp [Function.comp_def]

@[simp]
theorem isKeyed_muted
    (w : Written) :
    w.muted.isKeyed = w.isKeyed := by
  rw [isKeyed, isKeyed, keyed?_muted, Option.isSome_map]

@[simp]
theorem areKeyed_muted
    (ws : List Written) :
    areKeyed (ws.map muted) = areKeyed ws := by
  simp [areKeyed, Function.comp_def]

@[simp]
theorem keyword?_muted
    (w : Written) :
    w.muted.keyword? = w.keyword?.map (List.map muted) := by
  cases w with
  | list text items => simp [muted_list, keyword?, apply_ite]
  | _ => rfl

@[simp]
theorem isBareMark_muted
    (w : Written) :
    w.muted.isBareMark = w.isBareMark := by
  rw [isBareMark, isBareMark, couple?_muted]
  cases w.couple? <;> simp

/- What calls still tell is whether they have parentheses. -/
@[simp]
theorem isBare_muted
    (metadata : List Written) :
    isBare ((metadata.map muted).filter isBareMark) =
      isBare metadata := by
  simp [isBare_eq, List.any_filter, Function.comp_def]

------------------------------------------------------------
-- Operands
------------------------------------------------------------

@[simp]
theorem membership?_muted
    (w : Written) :
    w.muted.membership? =
      w.membership?.map (Prod.map muted muted) := by
  rw [membership?, membership?, argsOf?_muted]
  rcases w.argsOf? "in" with _ | _ | ⟨_, _ | ⟨_, _ | _⟩⟩ <;> rfl

@[simp]
theorem operatorPrecedence?_muted
    (name : String)
    (ws : List Written) :
    operatorPrecedence? name (ws.map muted) =
      operatorPrecedence? name ws := by
  rcases ws with _ | ⟨_, _ | ⟨_, _ | ⟨_, _ | _⟩⟩⟩ <;>
    simp [operatorPrecedence?]

@[simp]
theorem precedence?_muted
    (w : Written) :
    w.muted.precedence? = w.precedence? := by
  rw [precedence?, precedence?, named?_muted]
  cases w.named? <;> simp

@[simp]
theorem operand_muted
    (outer : Nat)
    (strict : Bool)
    (w : Written) :
    operand outer strict w.muted = operand outer strict w := by
  rw [operand, operand, needsParentheses, needsParentheses,
    precedence?_muted, text_muted]

@[simp]
theorem tightOperand_muted
    (w : Written) :
    tightOperand w.muted = tightOperand w := by
  simp [tightOperand]

------------------------------------------------------------
-- Sequences
------------------------------------------------------------

@[simp]
theorem keywordText_muted
    (w : Written) :
    keywordText w.muted = keywordText w := by
  rw [keywordText, keywordText, keyed?_muted]
  cases w.keyed? <;> simp

@[simp]
theorem sequence_muted
    (terms keywords : List Written) :
    sequence (terms.map muted) (keywords.map muted) =
      sequence terms keywords := by
  simp [sequence, Function.comp_def]

@[simp]
theorem arguments_muted
    (args : List Written) :
    arguments (args.map muted) = arguments args := by
  have hNone := sequence_muted args []
  rw [arguments, arguments, List.getLast?_map]
  rcases args.getLast? with _ | last
  · exact hNone
  · have hKeywords := keyword?_muted last
    cases hLast : last.keyword? with
    | none => simpa [hLast] using hNone
    | some keywords => simp [hLast, ← List.map_dropLast]

theorem keyedTail_muted
    (items : List Written) :
    keyedTail (items.map muted) = (keyedTail items).map muted := by
  simp [keyedTail, ← List.map_reverse, List.takeWhile_map,
    Function.comp_def]

@[simp]
theorem listText_muted
    (items : List Written) :
    listText (items.map muted) = listText items := by
  rw [listText, listText, keyedTail_muted, List.length_map,
    List.length_map, ← List.map_take, sequence_muted]

end ElixirReader.Written
