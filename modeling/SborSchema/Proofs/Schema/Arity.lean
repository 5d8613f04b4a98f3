/-
# Fixed numbers of parts

A struct or a tuple over places has a fixed number of parts: it takes the
children off one by one and holds what it parses in nested pairs. Over a list
of the same schemas it walks two lists side by side and gives a list. The two
do the same: they check alike, fail alike, and parse the same components in the
same order, by themselves and as the payload of a variant
(`Payload.fixed_sameComponents`).

Key definitions: `Payload.SameComponents`.
Key theorems: `Places.parseFrom_ofList`, `NamedPlaces.parseRequired_ofList`,
`NamedPlaces.parsePresent_ofList`, `Payload.ofFields_map_eq`,
`Payload.fixed_sameComponents`.
-/
import SborSchema.Proofs.Outcome
import SborSchema.Schema.Sum

namespace SborSchema

variable {α β γ δ : Type}

/-- Two outcomes with the same components keep them the same if one more component is put
in front. -/
theorem map_cons_eq {ε α' β' : Type} {x : Except ε α} {y : Except ε β} {f : α → List γ}
    {g : β → List γ} (h : x.map f = y.map g) (c : γ) {pair : α → α'} {pair' : β → β'}
    {f' : α' → List γ} {g' : β' → List γ} (hf : ∀ a, f' (pair a) = c :: f a)
    (hg : ∀ b, g' (pair' b) = c :: g b) :
    (x >>= fun a => .ok (pair a)).map f' = (y >>= fun b => .ok (pair' b)).map g' := by
  cases x with
  | error e =>
    cases y with
    | error e' => exact congrArg Except.error (Except.error.inj h)
    | ok b => cases h
  | ok a =>
    cases y with
    | error e' => cases h
    | ok b =>
      have hparts : f a = g b := Except.ok.inj h
      show Except.ok (f' (pair a)) = .ok (g' (pair' b))
      rw [hf, hg, hparts]

/-! ### Tuples -/

namespace Places

theorem arity_ofList : ∀ ss : List (Schema α), (ofList ss).arity = ss.length
  | [] => rfl
  | _ :: ss => by
    show (ofList ss).arity + 1 = ss.length + 1
    rw [arity_ofList ss]

/-- With as many children as places, no place is without a child. -/
theorem validateFrom_ofList (declared found : Nat) {p : Path} : ∀ {ss : List (Schema α)}
    {ts : List Tree} {i : Nat}, ts.length = ss.length →
    (ofList ss).validateFrom declared found ts i p = Payload.validateEach ss ts i p
  | [], _, _, _ => rfl
  | _ :: _, [], _, h => nomatch h
  | s :: ss, t :: ts, i, h => by
    rw [Payload.validateEach, ← validateFrom_ofList declared found (Nat.succ.inj h)]
    rfl

/-- With as many children as places, the nested pairs hold what the list holds. -/
theorem parseFrom_ofList (declared found : Nat) {p : Path} : ∀ {ss : List (Schema α)}
    {ts : List Tree} {i : Nat}, ts.length = ss.length →
    ((ofList ss).parseFrom declared found ts i p).map (Power.toList ss.length) =
      (Payload.parseEach ss ts i p).map id
  | [], _, _, _ => rfl
  | _ :: _, [], _, h => nomatch h
  | s :: ss, t :: ts, i, h => by
    have hrest := parseFrom_ofList declared found (p := p) (i := i + 1) (Nat.succ.inj h)
    show ((cons s (ofList ss)).parseFrom declared found (t :: ts) i p).map _ = _
    rw [parseFrom, Payload.parseEach]
    cases s.parseGated t (p.index i) with
    | error e => rfl
    | ok a => exact map_cons_eq hrest a (fun _ => rfl) (fun _ => rfl)

end Places

/-! ### Structs -/

namespace NamedPlaces

variable {children : List Tree} {p : Path}

theorem names_ofList : ∀ fields : List (String × Schema α),
    (ofList fields).names = fields.map (·.1)
  | [] => rfl
  | (name, s) :: fields => by
    show name :: (ofList fields).names = name :: fields.map (·.1)
    rw [names_ofList fields]

theorem checkMissing_ofList (fields : List (String × Schema α)) :
    (ofList fields).checkMissing children p = Payload.checkMissing fields children p := by
  rw [checkMissing, names_ofList]
  rfl

theorem validatePresent_ofList : ∀ fields : List (String × Schema α),
    (ofList fields).validatePresent children p = Payload.validatePresent fields children p
  | [] => rfl
  | (name, s) :: fields => by
    rw [Payload.validatePresent, ← validatePresent_ofList fields]
    rfl

/-- The nested pairs hold the values of the list without the names. -/
theorem parseRequired_ofList : ∀ fields : List (String × Schema α),
    ((ofList fields).parseRequired children p).map (Power.toList fields.length) =
      (Payload.parseRequired fields children p).map (List.map Prod.snd)
  | [] => rfl
  | (name, s) :: fields => by
    have hrest := parseRequired_ofList fields
    show ((cons name s (ofList fields)).parseRequired children p).map _ = _
    rw [parseRequired, Payload.parseRequired]
    cases Tree.child? name children with
    | none => rfl
    | some t =>
      simp only
      cases s.parseGated t (p.field name) with
      | error e => rfl
      | ok a => exact map_cons_eq hrest a (fun _ => rfl) (fun _ => rfl)

/-- The same of structs whose fields may be absent. -/
theorem parsePresent_ofList : ∀ fields : List (String × Schema α),
    ((ofList fields).parsePresent children p).map (Power.toList fields.length) =
      (Payload.parsePresent fields children p).map (List.map Prod.snd)
  | [] => rfl
  | (name, s) :: fields => by
    have hrest := parsePresent_ofList fields
    show ((cons name s (ofList fields)).parsePresent children p).map _ = _
    rw [parsePresent, Payload.parsePresent]
    cases Tree.child? name children with
    | none => exact map_cons_eq hrest none (fun _ => rfl) (fun _ => rfl)
    | some t =>
      simp only
      cases s.parseGated t (p.field name) with
      | error e => rfl
      | ok a => exact map_cons_eq hrest (some a) (fun _ => rfl) (fun _ => rfl)

end NamedPlaces

/-! ### Payloads -/

namespace Payload

/-- Nothing tells the two payloads apart but how they hold the components of what they parse:
not as schemas, not on the fields of a node, and not as a variant of an enum. -/
structure SameComponents (q : Payload α) (q' : Payload β) (parts : α → List γ)
    (parts' : β → List γ) : Prop where
  kinds : q.kinds = q'.kinds
  validate (t : Tree) (p : Path) : q.validate t p = q'.validate t p
  parse (t : Tree) (p : Path) : (q.parse t p).map parts = (q'.parse t p).map parts'
  validateFields (ts : List Tree) (p : Path) : q.validateFields ts p = q'.validateFields ts p
  parseFields (ts : List Tree) (p : Path) :
    (q.parseFields ts p).map parts = (q'.parseFields ts p).map parts'
  enum {δ : Type} (finish : List γ → δ) (before after : List (Variant δ)) (name : String) :
    Schema.enum (before ++ .new name (q.map (finish ∘ parts)) :: after) =
      Schema.enum (before ++ .new name (q'.map (finish ∘ parts')) :: after)

theorem map_comp (f : α → β) (g : β → γ) (q : Payload α) : q.map (g ∘ f) = (q.map f).map g := by
  simp only [map, Schema.map, map_map]

theorem map_id (q : Payload α) : q.map id = q := by
  have hid (x : Except ParseError α) : x.map id = x := by
    cases x <;> rfl
  simp only [map, Schema.map, hid]

/-- Payloads that are the same once they hold what they parse in the same way. -/
theorem SameComponents.of_map_eq {q : Payload α} {q' : Payload β} {parts : α → List γ}
    {parts' : β → List γ} (h : q.map parts = q'.map parts') :
    q.SameComponents q' parts parts' where
  kinds := congrArg (·.kinds) h
  validate t p := congrArg (·.validate t p) h
  parse t p := congrArg (·.parse t p) h
  validateFields ts p := congrArg (·.validateFields ts p) h
  parseFields ts p := congrArg (·.parseFields ts p) h
  enum finish before after name := by rw [map_comp, map_comp, h]

/-- Payloads that read tuple nodes are the same if they are so on lists of fields. -/
theorem ofFields_map_eq {v v' : List Tree → Path → Except ParseError Unit}
    {f : List Tree → Path → Except ParseError α} {f' : List Tree → Path → Except ParseError β}
    {parts : α → γ} {parts' : β → γ} (hv : ∀ ts p, v ts p = v' ts p)
    (hf : ∀ ts p, (f ts p).map parts = (f' ts p).map parts') :
    (ofFields v f).map parts = (ofFields v' f').map parts' := by
  obtain rfl : v = v' := funext fun ts => funext (hv ts)
  simp only [map, Schema.map, ofFields, map_bind, hf]

/-- What comes after the check of the arity counts only for the declared number of children. -/
theorem checkArity_bind_congr {n : Nat} {children : List Tree} {p : Path}
    {x y : Except ParseError α} (h : children.length = n → x = y) :
    (checkArity n children p >>= fun _ => x) = (checkArity n children p >>= fun _ => y) := by
  rw [checkArity]
  by_cases hn : children.length = n
  · rw [h hn]
  · rw [if_neg hn]
    rfl

theorem fixedTuple_map_toList (ss : List (Schema α)) :
    (fixedTuple (.ofList ss)).map (Power.toList ss.length) = (tuple ss).map id := by
  refine ofFields_map_eq (fun children p => ?_) (fun children p => ?_)
  · rw [Places.arity_ofList]
    exact checkArity_bind_congr fun h => Places.validateFrom_ofList _ _ h
  · rw [Places.arity_ofList, map_bind, map_bind]
    exact checkArity_bind_congr fun h => Places.parseFrom_ofList _ _ h

theorem fixedStruct_map_toList (fields : List (String × Schema α)) :
    (fixedStruct (.ofList fields)).map (Power.toList fields.length) =
      (struct fields).map (List.map Prod.snd) := by
  refine ofFields_map_eq (fun children p => ?_) (fun children p => ?_)
  · rw [NamedPlaces.checkMissing_ofList, NamedPlaces.validatePresent_ofList]
  · rw [NamedPlaces.checkMissing_ofList, map_bind, map_bind]
    simp only [NamedPlaces.parseRequired_ofList]

theorem fixedLenientStruct_map_toList (fields : List (String × Schema α)) :
    (fixedLenientStruct (.ofList fields)).map (Power.toList fields.length) =
      (lenientStruct fields).map (List.map Prod.snd) :=
  ofFields_map_eq (fun _ _ => NamedPlaces.validatePresent_ofList fields)
    (fun _ _ => NamedPlaces.parsePresent_ofList fields)

/-- **A fixed number of parts makes no difference.** Over the same schemas, structs, lenient
structs and tuples of a fixed number of parts do the same as those of a list, and hold the
same components in the same order. -/
theorem fixed_sameComponents (fields : List (String × Schema α)) (ss : List (Schema α)) :
    (fixedStruct (.ofList fields)).SameComponents (struct fields) (Power.toList fields.length)
      (List.map Prod.snd) ∧
    (fixedLenientStruct (.ofList fields)).SameComponents (lenientStruct fields)
      (Power.toList fields.length) (List.map Prod.snd) ∧
    (fixedTuple (.ofList ss)).SameComponents (tuple ss) (Power.toList ss.length) id :=
  ⟨.of_map_eq (fixedStruct_map_toList fields), .of_map_eq (fixedLenientStruct_map_toList fields),
    .of_map_eq (fixedTuple_map_toList ss)⟩

end Payload
end SborSchema
