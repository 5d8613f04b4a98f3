/-
# Fields and variants in another order

The fields of structs and the variants of enums may stand in another order, at
any depth. Which fault a bad tree is refused for depends on the order, and so
does the order in which a record holds its fields, but not whether a tree is
refused, nor what a field holds: the child of a field is found by its name, and
so is the variant of a node.

Key definitions: `TypeExpr.Reordered`, `Layout.Reordered`.
Key theorems: `OutcomesMatch.mapM_perm`, `Payload.structAllowing_perm`,
`Layout.reordered_struct`, `TypeExpr.reordered_enum`, `run_of_reordered`.
-/
import SborSchema.Proofs.TypeExpr.SideBySide
import SborSchema.Proofs.Value.ByName

namespace SborSchema

variable {ε α β : Type}

/-! ### Steps in another order -/

/-- A traversal of the same members in another order succeeds too, with the same results in
that order. It may fail with the error of another member. -/
theorem OutcomesMatch.mapM_perm {f : α → Except ε β} {l l' : List α} (h : l.Perm l') :
    OutcomesMatch False List.Perm (l.mapM f) (l'.mapM f) := by
  induction h with
  | nil => exact .ok .nil
  | cons a _ ih =>
    rw [List.mapM_cons, List.mapM_cons]
    cases f a with
    | error e => exact .error False.elim
    | ok b => exact ih.bind fun bs bs' hbs => .ok (hbs.cons b)
  | swap a b l =>
    -- If both members fail, each order reports the one it meets first.
    simp only [List.mapM_cons]
    cases f a with
    | error e =>
      cases f b with
      | error e' => exact .error False.elim
      | ok b' => exact .error False.elim
    | ok a' =>
      cases f b with
      | error e' => exact .error False.elim
      | ok b' =>
        cases l.mapM f with
        | error e => exact .error False.elim
        | ok bs => exact .ok (.swap a' b' bs)
  | trans _ _ ih ih' =>
    refine (ih.trans ih').imp fun bs bs' _ _ hbs => ?_
    obtain ⟨cs, hcs, hcs'⟩ := hbs
    exact hcs.trans hcs'

namespace Payload

variable {fields fields' : List (String × Schema α)} {children : List Tree} {p : Path}

theorem checkMissing_perm (h : fields.Perm fields') :
    OutcomesMatch False Eq (checkMissing fields children p) (checkMissing fields' children p) := by
  have hmissing : (missingNames fields children).Perm (missingNames fields' children) :=
    (h.map _).filter _
  rw [checkMissing, checkMissing]
  generalize missingNames fields children = names at hmissing
  generalize missingNames fields' children = names' at hmissing
  cases names with
  | nil =>
    obtain rfl := hmissing.nil_eq
    exact .ok rfl
  | cons name names =>
    cases names' with
    | nil => cases hmissing.eq_nil
    | cons name' names' => exact .error False.elim

/-- A struct over the same fields in another order finds the same values. -/
theorem structAllowing_perm (allowMissing : Bool) (h : fields.Perm fields') :
    (structAllowing allowMissing fields).Matches False List.Perm
      (structAllowing allowMissing fields') := by
  cases allowMissing with
  | true =>
    intro children p
    show OutcomesMatch False _ (parsePresent _ children p) (parsePresent _ children p)
    rw [parsePresent_eq_mapM, parsePresent_eq_mapM]
    exact .mapM_perm h
  | false =>
    have hstruct : (struct fields).Matches False List.Perm (struct fields') := by
      intro children p
      show OutcomesMatch False _
        (checkMissing _ children p >>= fun _ => parseRequired _ children p)
        (checkMissing _ children p >>= fun _ => parseRequired _ children p)
      rw [parseRequired_eq_mapM, parseRequired_eq_mapM]
      exact (checkMissing_perm h).bind fun _ _ _ => .mapM_perm h
    exact hstruct.map fun _ _ hvalues => hvalues.map _

end Payload

/-! ### Types in another order -/

mutual

/-- The second type is the first one, with the fields of structs and the variants of enums in
any order. -/
inductive TypeExpr.Reordered : TypeExpr → TypeExpr → Prop
  | leaf (l : LeafType) : TypeExpr.Reordered (.leaf l) (.leaf l)
  | layout {L L' : Layout} (hlayout : Layout.Reordered L L') :
      TypeExpr.Reordered (.layout L) (.layout L')
  | enum {parts : List (String × Option Layout × Option Layout)}
      {variants : List (String × Option Layout)}
      (hparts : ∀ x ∈ parts, Option.Rel Layout.Reordered x.2.1 x.2.2)
      (hperm : (rightOf parts).Perm variants) :
      TypeExpr.Reordered (.enum (leftOf parts)) (.enum variants)
  | option {inner inner' : TypeExpr} (hinner : TypeExpr.Reordered inner inner') :
      TypeExpr.Reordered (.option inner) (.option inner')
  | map {key key' value value' : TypeExpr} (hkey : TypeExpr.Reordered key key')
      (hvalue : TypeExpr.Reordered value value') :
      TypeExpr.Reordered (.map key value) (.map key' value')
  | array {element element' : TypeExpr} (helement : TypeExpr.Reordered element element') :
      TypeExpr.Reordered (.array element) (.array element')

/-- The same of layouts. The elements of a tuple keep their places. -/
inductive Layout.Reordered : Layout → Layout → Prop
  | struct {allowMissing : Bool} {parts : List (String × TypeExpr × TypeExpr)}
      {fields : List (String × TypeExpr)}
      (hparts : ∀ x ∈ parts, TypeExpr.Reordered x.2.1 x.2.2)
      (hperm : (rightOf parts).Perm fields) :
      Layout.Reordered (.struct allowMissing (leftOf parts)) (.struct allowMissing fields)
  | tuple {parts : List (TypeExpr × TypeExpr)}
      (hparts : ∀ x ∈ parts, TypeExpr.Reordered x.1 x.2) :
      Layout.Reordered (.tuple (parts.map (·.1))) (.tuple (parts.map (·.2)))

end

/-- The order in which the type lists its parts decides over errors and the order of fields
only. -/
def TypeExpr.Orderless (type : TypeExpr) : Prop :=
  ∀ type', type.Reordered type' → type.NamesDistinct →
    type.schema.Matches False Value.EqByName type'.schema

/-- The same of a layout. -/
def Layout.Orderless (L : Layout) : Prop :=
  ∀ L', L.Reordered L' → L.All (fun _ => True) List.Nodup →
    L.payload.Matches False Value.EqByName L'.payload

namespace Layout

/-- The fields of two structs, found in whatever order, make records that are equal by name. -/
theorem eqByName_lenientRecordOf {allowMissing : Bool} {parts : List (String × TypeExpr × TypeExpr)}
    (hnodup : (parts.map (·.1)).Nodup) {fs gs hs : List (String × Option Value)}
    (hplaced : Placed (fun x => Payload.FieldRelated allowMissing x.1 Value.EqByName) parts fs gs)
    (hperm : gs.Perm hs) :
    (Value.lenientRecordOf fs).EqByName (Value.lenientRecordOf hs) := by
  have hnames : fs.map (·.1) = parts.map (·.1) := by
    refine hplaced.map_eq fun x f g hfg => ?_
    cases hfg with
    | present _ | absent _ => rfl
  have hfields : List.Forall₂ (fun f g => g.1 = f.1 ∧ Value.EqByName f.2 g.2)
      (fs.map fun f => (f.1, f.2.getD .missing)) (gs.map fun g => (g.1, g.2.getD .missing)) := by
    rw [List.forall₂_map_left_iff, List.forall₂_map_right_iff]
    refine hplaced.forall₂ fun x f g hfg => ?_
    cases hfg with
    | present hvalues => exact ⟨rfl, hvalues⟩
    | absent _ => exact ⟨rfl, .refl _⟩
  refine Value.EqByName.recordOf ?_ hfields (hperm.map _)
  rw [List.map_map]
  show (fs.map (·.1)).Nodup
  rwa [hnames]

/-- **A struct finds its fields whatever their order.** -/
theorem orderless_struct (allowMissing : Bool) (fields : List (String × TypeExpr))
    (horderless : ∀ f ∈ fields, f.2.Orderless) : (struct allowMissing fields).Orderless := by
  intro _ hreordered hdistinct
  cases hreordered with
  | @struct _ parts fields' hparts hperm =>
  cases hdistinct with
  | struct hnames hfields =>
  have hmatch (x) (hx : x ∈ parts) :
      x.2.1.schema.Matches False Value.EqByName x.2.2.schema := by
    have hleft := mem_leftOf hx
    exact horderless _ hleft _ (hparts x hx) (hfields _ hleft)
  -- The fields are replaced one by one first, then they change places.
  have hpointwise := struct_matches allowMissing hmatch
  have hmoved : (Payload.structAllowing allowMissing (fieldSchemas (rightOf parts))).Matches False
      List.Perm (Payload.structAllowing allowMissing (fieldSchemas fields')) := by
    rw [fieldSchemas_eq_map, fieldSchemas_eq_map]
    exact Payload.structAllowing_perm allowMissing (hperm.map _)
  rw [payload_struct, payload_struct]
  rw [names_leftOf] at hnames
  exact (hpointwise.trans hmoved).map fun _ _ ⟨_, hplaced, hvalues⟩ =>
    eqByName_lenientRecordOf hnames hplaced hvalues

theorem orderless_tuple (elements : List TypeExpr)
    (horderless : ∀ type ∈ elements, type.Orderless) : (tuple elements).Orderless := by
  intro _ hreordered hdistinct
  cases hreordered with
  | @tuple parts hparts =>
  cases hdistinct with
  | tuple helements =>
  have hmatch (x) (hx : x ∈ parts) : x.1.schema.Matches False Value.EqByName x.2.schema := by
    have hleft : x.1 ∈ parts.map (·.1) := List.mem_map_of_mem hx
    exact horderless _ hleft _ (hparts x hx) (helements _ hleft)
  exact tuple_matches hmatch fun vs ws hplaced => .tuple (hplaced.forall₂ fun _ _ _ h => h)

end Layout

namespace TypeExpr

theorem orderless_leaf (l : LeafType) : (leaf l).Orderless := by
  rintro _ ⟨⟩ -
  exact fun t p => .refl .refl _

theorem orderless_layout (L : Layout) (horderless : L.Orderless) : (layout L).Orderless := by
  intro _ hreordered hdistinct
  cases hreordered with
  | layout hlayout =>
  cases hdistinct with
  | layout hL => exact layout_matches (horderless _ hlayout hL)

/-- **An enum finds the variant of a node whatever the order of its variants.** -/
theorem orderless_enum (variants : List (String × Option Layout))
    (horderless : ∀ v ∈ variants, ∀ L, v.2 = some L → L.Orderless) :
    (enum variants).Orderless := by
  intro _ hreordered hdistinct
  cases hreordered with
  | @enum parts variants' hparts hperm =>
  cases hdistinct with
  | enum hnames hvariants =>
  have hright : ((rightOf parts).map (·.1)).Nodup := by
    rwa [names_rightOf, ← names_leftOf]
  refine enum_matches hparts (fun name => .refl _) (fun name L L' hfind hL => ?_) False.elim
    (find?_of_perm hright hperm)
  have hleft : (name, some L) ∈ leftOf parts :=
    mem_leftOf (List.mem_of_find?_eq_some hfind)
  have hpayload := horderless _ hleft L rfl L' hL (hvariants _ hleft L rfl)
  exact fun fields p => (hpayload fields p).imp fun _ _ _ _ h => .enum (.some h)

theorem orderless_option (inner : TypeExpr) (horderless : inner.Orderless) :
    (option inner).Orderless := by
  intro _ hreordered hdistinct
  cases hreordered with
  | option hinner =>
  cases hdistinct with
  | option hdistinct =>
    exact option_matches (horderless _ hinner hdistinct) fun _ _ => .option

theorem orderless_map (key value : TypeExpr) (hkey : key.Orderless) (hvalue : value.Orderless) :
    (map key value).Orderless := by
  intro _ hreordered hdistinct
  cases hreordered with
  | map hkey' hvalue' =>
  cases hdistinct with
  | map hdistinctKey hdistinctValue =>
  refine map_matches (hkey _ hkey' hdistinctKey) (hvalue _ hvalue' hdistinctValue)
    fun es es' h => .map ?_ ?_
  · rw [List.forall₂_map_left_iff, List.forall₂_map_right_iff]
    exact h.imp fun _ _ => And.left
  · rw [List.forall₂_map_left_iff, List.forall₂_map_right_iff]
    exact h.imp fun _ _ => And.right

theorem orderless_array (element : TypeExpr) (horderless : element.Orderless) :
    (array element).Orderless := by
  intro _ hreordered hdistinct
  cases hreordered with
  | array helement =>
  cases hdistinct with
  | array hdistinct =>
    exact array_matches (horderless _ helement hdistinct) fun _ _ => .array

theorem orderless_hereditary : Hereditary Orderless Layout.Orderless where
  leaf := orderless_leaf
  layout := orderless_layout
  enum := orderless_enum
  option := orderless_option
  map := orderless_map
  array := orderless_array
  struct := Layout.orderless_struct
  tuple := Layout.orderless_tuple

end TypeExpr

/-- **The order of fields and variants decides neither over acceptance nor over what a field
holds**: under distinct names, a type and a reordered one accept the same trees, as values
that are equal by name. -/
theorem run_of_reordered {type type' : TypeExpr} (h : type.Reordered type')
    (hdistinct : type.NamesDistinct) (t : Tree) :
    ((∃ v, type.schema.run t = .ok v) ↔ ∃ w, type'.schema.run t = .ok w) ∧
      ∀ v w, type.schema.run t = .ok v → type'.schema.run t = .ok w → v.EqByName w :=
  (TypeExpr.orderless_hereditary.type type type' h hdistinct t .root).ok_iff_ok

/-- Under an array, the variants of an enum change places, and so do the fields of one of their
payloads: the record has its fields in the other order. -/
theorem run_of_reordered_nested :
    (TypeExpr.array (.enum [("Open", none),
      ("Paid", some (.struct false [("by", .leaf .string), ("gift", .leaf .bool)]))])).Reordered
      (.array (.enum [("Paid", some (.struct false [("gift", .leaf .bool), ("by", .leaf .string)])),
        ("Open", none)])) ∧
    (TypeExpr.array (.enum [("Open", none), ("Paid",
      some (.struct false [("by", .leaf .string), ("gift", .leaf .bool)]))])).NamesDistinct ∧
    (TypeExpr.array (.enum [("Open", none), ("Paid",
        some (.struct false [("by", .leaf .string), ("gift", .leaf .bool)]))])).schema.run
      (.array {} .enum [.enum {} "1" (some "Paid") [.leaf ⟨none, some "gift"⟩ (.bool true),
        .leaf ⟨none, some "by"⟩ (.string "card")]]) =
      .ok (.array [.enum "Paid" (some (.record [("by", .string "card"), ("gift", .bool true)]))]) ∧
    (TypeExpr.array (.enum [("Paid",
        some (.struct false [("gift", .leaf .bool), ("by", .leaf .string)])),
        ("Open", none)])).schema.run
      (.array {} .enum [.enum {} "1" (some "Paid") [.leaf ⟨none, some "gift"⟩ (.bool true),
        .leaf ⟨none, some "by"⟩ (.string "card")]]) =
      .ok (.array [.enum "Paid" (some (.record [("gift", .bool true), ("by", .string "card")]))]) ∧
    (Value.array
        [.enum "Paid" (some (.record [("by", .string "card"), ("gift", .bool true)]))]).EqByName
      (.array [.enum "Paid" (some (.record [("gift", .bool true), ("by", .string "card")]))]) := by
  have hpayload : Layout.Reordered
      (.struct false [("by", .leaf .string), ("gift", .leaf .bool)])
      (.struct false [("gift", .leaf .bool), ("by", .leaf .string)]) := by
    refine @Layout.Reordered.struct false
      [("by", .leaf .string, .leaf .string), ("gift", .leaf .bool, .leaf .bool)] _ ?_ (.swap _ _ _)
    rintro x hx
    rcases List.mem_pair.mp hx with rfl | rfl
    · exact .leaf _
    · exact .leaf _
  have hvariants : TypeExpr.Reordered
      (.enum [("Open", none),
        ("Paid", some (.struct false [("by", .leaf .string), ("gift", .leaf .bool)]))])
      (.enum [("Paid", some (.struct false [("gift", .leaf .bool), ("by", .leaf .string)])),
        ("Open", none)]) := by
    refine @TypeExpr.Reordered.enum [("Open", none, none), ("Paid", some _, some _)] _ ?_
      (.swap _ _ _)
    rintro x hx
    rcases List.mem_pair.mp hx with rfl | rfl
    · exact .none
    · exact .some hpayload
  have hdistinct : (TypeExpr.array (.enum [("Open", none), ("Paid",
      some (.struct false [("by", .leaf .string), ("gift", .leaf .bool)]))])).NamesDistinct := by
    refine .array (.enum (by decide) fun v hv L hL => ?_)
    rcases List.mem_pair.mp hv with rfl | rfl
    · cases hL
    · obtain rfl := Option.some.inj hL
      refine .struct (by decide) fun f hf => ?_
      rcases List.mem_pair.mp hf with rfl | rfl
      · exact .leaf trivial
      · exact .leaf trivial
  refine ⟨.array hvariants, hdistinct, rfl, rfl, ?_⟩
  exact (run_of_reordered (.array hvariants) hdistinct (.array {} .enum [.enum {} "1" (some "Paid")
    [.leaf ⟨none, some "gift"⟩ (.bool true), .leaf ⟨none, some "by"⟩ (.string "card")]])).2 _ _
    rfl rfl

end SborSchema
