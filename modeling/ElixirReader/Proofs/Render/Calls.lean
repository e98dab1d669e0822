import ElixirReader.Proofs.Render.Places

/-
  This file shows that parts of binaries, clauses, do blocks,
  functions and calls are written without regard to where they
  stand, be the calls constructs, operators, or calls by a name
  or behind a dot.

  Main declarations:
    * `Written.bits_muted`
    * `Written.sigil_muted`
    * `Written.clause_muted`
    * `Written.doBlock_muted`
    * `Written.function_muted`
    * `Written.invocation_muted`
    * `Written.namedCall_muted`
    * `Written.dotCall_muted`
-/

namespace ElixirReader.Written

variable {w : Written}

------------------------------------------------------------
-- Interpolations
------------------------------------------------------------

@[simp]
theorem interpolation_muted
    (w : Written) :
    interpolation w.muted = interpolation w := by
  rw [interpolation, interpolation, text_muted]

@[simp]
theorem converted?_muted
    (w : Written) :
    w.muted.converted? = w.converted?.map muted := by
  rw [converted?, converted?, call?_muted]
  rcases w.call? with _ | ⟨function, metadata, args⟩
  · rfl
  · cases args with
    | list text items =>
        rcases items with _ | ⟨argument, _ | _⟩
        · rfl
        · simp only [Option.map_some, muted_list, List.map_cons,
            List.map_nil, args?_muted]
          rcases function.args? with
            _ | _ | ⟨module, _ | ⟨name, _ | _⟩⟩ <;>
            simp [apply_ite]
        · rfl
    | _ => rfl

@[simp]
theorem isBinaryType_muted
    (w : Written) :
    isBinaryType w.muted = isBinaryType w := by
  rw [isBinaryType, isBinaryType, call?_muted]
  cases w.call? <;> simp

@[simp]
theorem interpolated?_muted
    (w : Written) :
    w.muted.interpolated? = w.interpolated?.map muted := by
  rw [interpolated?, interpolated?, argsOf?_muted]
  rcases w.argsOf? "::" with _ | _ | ⟨_, _ | ⟨type, _ | _⟩⟩
  case some.cons.cons.nil =>
    cases hType : isBinaryType type <;> simp [hType]
  all_goals rfl

------------------------------------------------------------
-- Bit strings
------------------------------------------------------------

@[simp]
theorem stringPart?_muted
    (w : Written) :
    w.muted.stringPart? = w.stringPart? := by
  have hParts : (w.muted.interpolated?).map interpolation =
      w.interpolated?.map interpolation := by
    simp [Function.comp_def]
  cases w <;> first | rfl | exact hParts

theorem exists_of_argsOf?
    {name : String}
    {args : List Written}
    (hArgs : w.argsOf? name = some args) :
    ∃ text content metadata inner,
      w = .tuple text
        [.atom name, .list content metadata, .list inner args] := by
  obtain ⟨⟨n, found⟩, hNamed, hFound⟩ :=
    Option.bind_eq_some_iff.mp hArgs
  dsimp only at hFound
  split at hFound
  · rename_i hName
    cases hName
    cases hFound
    unfold named? at hNamed
    split at hNamed
    · cases hNamed
      exact ⟨_, _, _, _, rfl⟩
    · cases hNamed
  · cases hFound

/- What is not joined by a dash is as it is by itself. -/
theorem modifiers_of_ne
    (hOther : ∀ left right,
      w.argsOf? "-" ≠ some [left, right]) :
    modifiers w = w.text := by
  unfold modifiers
  split
  · split
    · rename_i hName
      subst hName
      exact (hOther _ _ rfl).elim
    · rfl
  · rfl

@[simp]
theorem modifiers_muted
    (w : Written) :
    modifiers w.muted = modifiers w := by
  fun_induction modifiers w with
  | case1 text content metadata inner left right ihRight ihLeft =>
      rw [muted_call, muted_list]
      change modifiers left.muted ++ "-".toList ++
        modifiers right.muted = _
      rw [ihLeft, ihRight]
  | case2 text name content metadata inner left right hName =>
      rw [muted_call, muted_list]
      simp [muted, modifiers, hName]
  | case3 w hOther =>
      refine (modifiers_of_ne fun left right hArgs => ?_).trans
        (text_muted w)
      rw [argsOf?_muted, Option.map_eq_some_iff] at hArgs
      obtain ⟨args, hArgs, hPair⟩ := hArgs
      obtain ⟨_, _, _, _, rfl⟩ := exists_of_argsOf? hArgs
      obtain ⟨_, _, rfl, _, hPair⟩ := List.map_eq_cons_iff.mp hPair
      obtain ⟨_, _, rfl, _, hNil⟩ := List.map_eq_cons_iff.mp hPair
      obtain rfl := List.map_eq_nil_iff.mp hNil
      exact hOther _ _ _ _ _ _ _ rfl

@[simp]
theorem segment_muted
    (w : Written) :
    segment w.muted = segment w := by
  rw [segment, segment, argsOf?_muted]
  rcases w.argsOf? "::" with _ | _ | ⟨_, _ | ⟨_, _ | _⟩⟩ <;> simp

@[simp]
theorem bits_muted
    (parts : List Written) :
    bits (parts.map muted) = bits parts := by
  have hParts :
      (parts.map muted).mapM stringPart? =
        parts.mapM stringPart? := by
    simp [Function.comp_def]
  rw [bits, bits, hParts]
  rcases parts.mapM stringPart? with _ | _ | _ <;>
    simp [Function.comp_def]

------------------------------------------------------------
-- Sigils
------------------------------------------------------------

@[simp]
theorem sigilPart_muted
    (w : Written) :
    sigilPart w.muted = sigilPart w := by
  have hPart : interpolation (w.muted.interpolated?.getD w.muted) =
      interpolation (w.interpolated?.getD w) := by
    rw [interpolated?_muted]
    cases w.interpolated? <;> simp
  cases w <;> first | rfl | exact hPart

@[simp]
theorem sigilModifier_muted
    (w : Written) :
    sigilModifier w.muted = sigilModifier w := by
  cases w <;> rfl

@[simp]
theorem sigil_muted
    (name : List Char)
    (content : Written)
    (letters : List Written) :
    sigil name content.muted (letters.map muted) =
      sigil name content letters := by
  rw [sigil, sigil, args?_muted]
  cases content.args? <;> simp [List.flatMap_map]

------------------------------------------------------------
-- Bodies and clauses
------------------------------------------------------------

@[simp]
theorem isClause_muted
    (w : Written) :
    w.muted.isClause = w.isClause := by
  rw [isClause, isClause, call?_muted]
  cases w.call? <;> simp

@[simp]
theorem bodyText_muted
    (w : Written) :
    bodyText w.muted = bodyText w := by
  cases w with
  | list content items =>
      simp [muted_list, bodyText, Function.comp_def]
  | _ => rfl

@[simp]
theorem head_muted
    (patterns : List Written) :
    head (patterns.map muted) = head patterns := by
  rcases patterns with _ | ⟨guarded, _ | _⟩
  · rfl
  · have hPlain := arguments_muted [guarded]
    simp only [List.map_cons, List.map_nil, head, argsOf?_muted]
    rcases guarded.argsOf? "when" with
      _ | _ | ⟨first, _ | ⟨second, rest⟩⟩
    · exact hPlain
    · exact hPlain
    · exact hPlain
    · have hInit := arguments_muted (first :: second :: rest).dropLast
      change arguments (List.map muted
          (first :: second :: rest)).dropLast ++ " when ".toList ++
        ((List.map muted (second :: rest)).getLast _).text = _
      rw [← List.map_dropLast, hInit, List.getLast_map, text_muted]
  · exact arguments_muted _

@[simp]
theorem clause_muted
    (patterns : List Written)
    (body : Written) :
    clause (patterns.map muted) body.muted =
      clause patterns body := by
  simp [clause, arrow]

theorem clauseParts?_muted
    (w : Written) :
    w.muted.clauseParts? =
      w.clauseParts?.map (Prod.map (List.map muted) muted) := by
  rw [clauseParts?, clauseParts?, args?_muted]
  rcases w.args? with _ | _ | ⟨first, _ | ⟨_, _ | _⟩⟩
  case some.cons.cons.nil =>
    cases first with
    | list text patterns => simp [muted_list]
    | _ => rfl
  case some.cons.nil => cases first <;> rfl
  case some.cons.cons.cons => cases first <;> rfl
  all_goals rfl

------------------------------------------------------------
-- Do blocks
------------------------------------------------------------

theorem mapM_keyed?_muted
    (ws : List Written) :
    (ws.map muted).mapM keyed? =
      (ws.mapM keyed?).map
        (List.map (Prod.map id muted)) := by
  induction ws with
  | nil => rfl
  | cons w ws ih =>
      rw [List.map_cons, List.mapM_cons, List.mapM_cons, ih,
        keyed?_muted]
      cases w.keyed? <;> cases ws.mapM keyed? <;> rfl

@[simp]
theorem sections?_muted
    (w : Written) :
    w.muted.sections? =
      w.sections?.map
        (List.map (Prod.map id muted)) := by
  cases w with
  | list text items =>
      rw [muted_list, sections?, sections?, mapM_keyed?_muted]
      rcases items.mapM keyed? with _ | _ | _ <;>
        simp [Option.filter, apply_ite]
  | _ => rfl

@[simp]
theorem sectionBody_muted
    (body : Written) :
    sectionBody body.muted = sectionBody body := by
  rw [sectionBody, sectionBody, bodyText_muted]

@[simp]
theorem doBlock_muted
    (sections : List (String × Written)) :
    doBlock (sections.map (Prod.map id muted)) =
      doBlock sections := by
  cases sections with
  | nil => rfl
  | cons first rest =>
      have hLater : ∀ section' : String × Written,
          laterSection (section'.map id muted) =
            laterSection section' :=
        fun section' => by simp [laterSection]
      simp [doBlock, List.flatMap_map, hLater]

------------------------------------------------------------
-- Functions
------------------------------------------------------------

@[simp]
theorem onlyClause_muted
    (w : Written) :
    onlyClause w.muted = onlyClause w := by
  rw [onlyClause, onlyClause, clauseParts?_muted]
  cases w.clauseParts? <;> simp

@[simp]
theorem tallFunction_muted
    (clauses : List Written) :
    tallFunction (clauses.map muted) = tallFunction clauses := by
  simp [tallFunction, Function.comp_def]

@[simp]
theorem function_muted
    (clauses : List Written) :
    function (clauses.map muted) = function clauses := by
  have hTall := tallFunction_muted clauses
  rcases clauses with _ | ⟨w, _ | _⟩
  · rfl
  · simp only [List.map_cons, List.map_nil, function,
      onlyClause_muted] at hTall ⊢
    rw [hTall]
  · exact hTall

------------------------------------------------------------
-- Maps
------------------------------------------------------------

theorem entry_eq
    (w : Written) :
    entry w = (w.couple?.map fun (key, value) =>
      key.text ++ " => ".toList ++ value.text).getD w.text := by
  unfold entry
  split
  · rfl
  · rename_i hOther
    have hNone : w.couple? = none := by
      unfold couple?
      split
      · exact (hOther _ _ _ rfl).elim
      · rfl
    rw [hNone]
    rfl

@[simp]
theorem entry_muted
    (w : Written) :
    entry w.muted = entry w := by
  rw [entry_eq, entry_eq, couple?_muted]
  cases w.couple? <;> simp

@[simp]
theorem entries_muted
    (pairs : List Written) :
    entries (pairs.map muted) = entries pairs := by
  simp [entries, Function.comp_def]

@[simp]
theorem update?_muted
    (items : List Written) :
    update? (items.map muted) =
      (update? items).map (Prod.map muted (List.map muted)) := by
  rcases items with _ | ⟨w, _ | _⟩
  · rfl
  · simp only [List.map_cons, List.map_nil, update?, argsOf?_muted]
    rcases w.argsOf? "|" with _ | _ | ⟨_, _ | ⟨second, _ | _⟩⟩
    case some.cons.cons.nil =>
      cases second with
      | list text pairs => simp [muted_list]
      | _ => rfl
    case some.cons.cons.cons => cases second <;> rfl
    all_goals rfl
  · rfl

@[simp]
theorem mapBody_muted
    (items : List Written) :
    mapBody (items.map muted) = mapBody items := by
  rw [mapBody, mapBody, update?_muted]
  cases update? items <;> simp

@[simp]
theorem structBody_muted
    (map : Written) :
    structBody map.muted = structBody map := by
  rw [structBody, structBody, args?_muted]
  cases map.args? <;> simp

------------------------------------------------------------
-- Operators
------------------------------------------------------------

@[simp]
theorem binaryOperator_muted
    (name : String)
    (binding : Binding)
    (left right : Written) :
    binaryOperator name binding left.muted right.muted =
      binaryOperator name binding left right := by
  simp [binaryOperator]

@[simp]
theorem steppedRange_muted
    (first last step : Written) :
    steppedRange first.muted last.muted step.muted =
      steppedRange first last step := by
  simp [steppedRange]

@[simp]
theorem unaryOperator_muted
    (name : String)
    (w : Written) :
    unaryOperator name w.muted = unaryOperator name w := by
  simp [unaryOperator]

@[simp]
theorem negation_muted
    (w : Written) :
    negation w.muted = negation w := by
  rw [negation, negation, membership?_muted]
  cases w.membership? <;> simp

@[simp]
theorem operator?_muted
    (name : String)
    (items : List Written) :
    operator? name (items.map muted) = operator? name items := by
  rcases items with _ | ⟨_, _ | ⟨_, _ | ⟨_, _ | _⟩⟩⟩ <;>
    simp [operator?]

------------------------------------------------------------
-- Calls by a name
------------------------------------------------------------

@[simp]
theorem beforeDo_muted
    (args : List Written) :
    beforeDo (args.map muted) = beforeDo args := by
  simp [beforeDo]

@[simp]
theorem invocation_muted
    (name : List Char)
    (bare : Bool)
    (args : List Written) :
    invocation name bare (args.map muted) =
      invocation name bare args := by
  have hSections :
      (args.map muted).getLast?.bind sections? =
        (args.getLast?.bind sections?).map
          (List.map (Prod.map id muted)) := by
    rw [List.getLast?_map]
    cases args.getLast? <;> simp
  rw [invocation, invocation, hSections]
  cases args.getLast?.bind sections? <;>
    simp [← List.map_dropLast]

------------------------------------------------------------
-- Constructs
------------------------------------------------------------

@[simp]
theorem aliasPart_muted
    (w : Written) :
    aliasPart w.muted = aliasPart w := by
  cases w <;> rfl

@[simp]
theorem attributeText_muted
    (w : Written) :
    attributeText w.muted = attributeText w := by
  rw [attributeText, attributeText, named?_muted]
  rcases w.named? with _ | ⟨name, _ | ⟨first, rest⟩⟩
  · exact text_muted w
  · exact text_muted w
  · have hArguments := arguments_muted (first :: rest)
    simpa using hArguments

@[simp]
theorem captured_muted
    (w : Written) :
    captured w.muted = captured w := by
  rw [captured, captured, argsOf?_muted, text_muted]
  rcases w.argsOf? "/" with _ | _ | ⟨_, _ | ⟨arity, _ | _⟩⟩
  case some.cons.cons.nil =>
    cases arity with
    | integer value => simp [muted]
    | _ => rfl
  case some.cons.cons.cons => cases arity <;> rfl
  all_goals rfl

@[simp]
theorem capture_muted
    (w : Written) :
    capture w.muted = capture w := by
  have hCaptured := captured_muted w
  cases w <;> first
    | rfl
    | exact congrArg ("&".toList ++ ·) hCaptured

@[simp]
theorem container?_muted
    (name : String)
    (items : List Written) :
    container? name (items.map muted) = container? name items := by
  have hSequence := sequence_muted items []
  rw [List.map_nil] at hSequence
  simp [container?, hSequence, Function.comp_def]

@[simp]
theorem mark?_muted
    (name : String)
    (item : Written) :
    mark? name item.muted = mark? name item := by
  simp [mark?]

@[simp]
theorem pair?_muted
    (name : String)
    (first second : Written) :
    pair? name first.muted second.muted =
      pair? name first second := by
  cases first with
  | list content patterns => simp [muted_list, pair?, text]
  | _ => simp [muted, pair?, text]

@[simp]
theorem construct?_muted
    (name : String)
    (items : List Written) :
    construct? name (items.map muted) = construct? name items := by
  unfold construct?
  rw [container?_muted]
  rcases items with _ | ⟨_, _ | ⟨_, _ | _⟩⟩ <;> simp

@[simp]
theorem sigil?_muted
    (name : String)
    (items : List Written) :
    sigil? name (items.map muted) = sigil? name items := by
  rcases items with _ | ⟨first, _ | ⟨second, _ | _⟩⟩
  case cons.cons.nil =>
    cases first with
    | tuple text parts =>
        cases second with
        | list text' letters =>
            have hSigil :=
              sigil_muted name.toList (.tuple text parts) letters
            simp only [List.map_cons, List.map_nil, muted,
              allMuted_eq, sigil?] at hSigil ⊢
            rw [hSigil]
        | _ => rfl
    | _ => rfl
  case cons.nil => cases first <;> rfl
  case cons.cons.cons => cases first <;> cases second <;> rfl
  all_goals rfl

@[simp]
theorem namedCall_muted
    (name : String)
    (args : List Written) :
    namedCall name (args.map muted) = namedCall name args := by
  simp [namedCall]

------------------------------------------------------------
-- Calls behind a dot
------------------------------------------------------------

@[simp]
theorem lookup?_muted
    (receiver function : Written)
    (args : List Written) :
    lookup? receiver.muted function.muted (args.map muted) =
      lookup? receiver function args := by
  rcases args with _ | ⟨_, _ | ⟨_, _ | _⟩⟩ <;> simp [lookup?]

@[simp]
theorem remoteCall_muted
    (receiver : Written)
    (name : String)
    (metadata args : List Written) :
    remoteCall receiver.muted name
        ((metadata.map muted).filter isBareMark)
        (args.map muted) =
      remoteCall receiver name metadata args := by
  simp [remoteCall]

theorem dottedCall_muted
    (dot : Written)
    (sides metadata args : List Written) :
    dottedCall dot.muted (sides.map muted)
        ((metadata.map muted).filter isBareMark)
        (args.map muted) =
      dottedCall dot sides metadata args := by
  have hSequence := sequence_muted args []
  rw [List.map_nil] at hSequence
  rcases sides with _ | ⟨receiver, _ | ⟨second, _ | _⟩⟩
  · simp [dottedCall]
  · simp [dottedCall]
  · cases second with
    | atom name =>
        have hLookup := lookup?_muted receiver (.atom name) args
        rw [muted] at hLookup
        simp [dottedCall, muted, hSequence, hLookup]
    | _ => simp [dottedCall, muted]
  · cases second <;> simp [dottedCall, muted]

theorem dotCall_muted
    (dot : Written)
    (metadata args : List Written) :
    dotCall dot.muted ((metadata.map muted).filter isBareMark)
        (args.map muted) =
      dotCall dot metadata args := by
  rw [dotCall, dotCall, call?_muted]
  rcases dot.call? with _ | ⟨name, _, inner⟩
  · exact text_muted dot
  · cases inner with
    | list content sides =>
        simp [muted_list, dottedCall_muted]
    | _ => exact text_muted dot

end ElixirReader.Written
