import BoundQuery.Proofs.Compiled
import BoundQuery.Proofs.Run

/-! Calls as edits. A call is read, from its arguments alone, to one edit of the builder, and the
edit is made; a call that cannot be read fails. -/
namespace BoundQuery

/-- What a call that succeeds does to a builder. -/
inductive Edit where
  | filter (tree : Entries)
  | projection (p : Projection)
  | joins (more : List Join)
  | order (given : Order)
  | limit (n : Nat)
  | offset (n : Nat)
  | payload (given : Payload)
  | single
  | documents (given : List Entries)
  | upsert (enable : Bool) (fields : Option (List Value))
  | stage (given : Stage)

namespace Edit

/-- The builder after the edit; a builder without the part to be edited stays as it is. -/
def run : Edit → Builder → Builder
  | filter tree, .select s => .select { s with filter := s.filter.add tree }
  | filter tree, .update u => .update { u with filter := u.filter.add tree }
  | filter tree, .delete d => .delete { d with filter := d.filter.add tree }
  | projection p, .select s => .select { s with projection := some p }
  | joins more, .select s => .select { s with joins := s.joins ++ more }
  | order given, .select s => .select { s with order := some given }
  | limit n, .select s => .select { s with limit := some n }
  | offset n, .select s => .select { s with offset := some n }
  | payload given, .update u => .update { u with payload := some given }
  | single, .update u => .update { u with single := true }
  | single, .delete d => .delete { d with single := true }
  | documents given, .insert i => .insert { i with documents := given }
  | upsert enable fields, .insert i => .insert { i with upsert := enable, upsertFields := fields }
  | stage given, .aggregate a => .aggregate { a with stages := a.stages ++ [given] }
  | _, b => b

end Edit

def Accumulated.read (kind : StatementKind) : Value → Except Error Entries
  | .map tree => .ok tree
  | v => .error (.configuration (.filterKind v.kind) (.str kind.name))

namespace Select

def readJoins : List Value → Except Error (List Join)
  | [] => .ok []
  | v :: rest => do return (← readJoin v) :: (← readJoins rest)

def joinsBeforeFault : List Value → List Join
  | [] => []
  | v :: rest =>
    match readJoin v with
    | .ok j => j :: joinsBeforeFault rest
    | .error _ => []

def read : Call → Except Error Edit
  | .query tree => .filter <$> Accumulated.read .select tree
  | .project fields => .projection <$> readProjection fields
  | .join joins => do .joins <$> readJoins (← joinItems joins)
  | .sort v => .order <$> readOrder v
  | .limit v => .limit <$> Check.count .select "limit" v
  | .offset v => .offset <$> Check.count .select "offset" v

/-- What a call leaves if it fails: joins are added one by one until one is faulty. -/
def leave : Call → Select → Select
  | .join joins, s =>
    match joinItems joins with
    | .ok items => { s with joins := s.joins ++ joinsBeforeFault items }
    | .error _ => s
  | _, s => s

end Select

namespace Update

def read (idField : Value) : Call → Except Error Edit
  | .query tree => .filter <$> Accumulated.read .update tree
  | .update v => .payload <$> readPayload idField v
  | .single => .ok .single

end Update

namespace Delete

def read : Call → Except Error Edit
  | .query tree => .filter <$> Accumulated.read .delete tree
  | .single => .ok .single

end Delete

namespace Insert

def read : Call → Except Error Edit
  | .insertOne v => (fun document => .documents [document]) <$> readDocument v
  | .insertMany v =>
    match v.sequence? with
    | some items => .documents <$> readDocuments 0 items
    | none => .error (configurationError .documentsKind)
  | .upsert enable .null => .ok (.upsert enable.truthy none)
  | .upsert enable fields => (fun items => .upsert enable.truthy (some items)) <$> fields.items

/-- What a call leaves if it fails: upserting is switched before the fields are looked at. -/
def leave : Call → Insert → Insert
  | .upsert enable _, i => { i with upsert := enable.truthy }
  | _, i => i

end Insert

namespace Aggregate

def read : Call → Except Error Edit
  | .add stage => .stage <$> Stage.parse stage
  | .named kind content => .stage <$> Stage.parse (namedStage kind content)
  | .project fields => do .stage <$> Stage.parse (namedStage .project (← columns fields))
  | .lookup spec more => do .stage <$> Stage.parse (namedStage .lookup (← lookupContent spec more))

end Aggregate

namespace Builder

/-- The edit that a call asks of a builder, which has to be of the call's kind. -/
def read : Call → Builder → Except Error Edit
  | .select c, select _ => Select.read c
  | .update c, update u => Update.read u.idField c
  | .delete c, delete _ => Delete.read c
  | .insert c, insert _ => Insert.read c
  | .aggregate c, aggregate _ => Aggregate.read c
  | _, _ => .error .unfit

def leave : Call → Builder → Builder
  | .select c, select s => select (Select.leave c s)
  | .insert c, insert i => insert (Insert.leave c i)
  | _, b => b

def edited (b left : Builder) : Except Error Edit → EStateM.Result Error Builder Unit
  | .ok edit => .ok () (edit.run b)
  | .error e => .error e left

theorem change_read {σ α : Type} (wrap : σ → Builder) (s : σ) (edit : α → Edit)
    {x : Except Error α} {f : α → Change σ Unit}
    (h : ∀ a, change wrap s (f a) = .ok () ((edit a).run (wrap s))) :
    change wrap s (liftM x >>= f) = edited (wrap s) (wrap s) (edit <$> x) := by
  cases x with
  | ok a => exact h a
  | error e => rfl

end Builder

namespace Select

theorem addJoins_eq (items : List Value) (s : Select) :
    Builder.change .select s (addJoins items) =
      Builder.edited (.select s) (.select { s with joins := s.joins ++ joinsBeforeFault items })
        (.joins <$> readJoins items) := by
  have hnil : ∀ s : Select, { s with joins := s.joins ++ [] } = s := fun s => by simp
  induction items generalizing s with
  | nil => exact congrArg (fun t => EStateM.Result.ok () (Builder.select t)) (hnil s).symm
  | cons v rest ih =>
    cases hv : readJoin v with
    | error e =>
      simp only [addJoins, readJoins, joinsBeforeFault, hv, hnil]
      rfl
    | ok j =>
      simp only [addJoins, readJoins, joinsBeforeFault, hv]
      refine (ih { s with joins := s.joins ++ [j] }).trans ?_
      cases readJoins rest with
      | error e => simp [Builder.edited, Functor.map, Except.map, bind, Except.bind]
      | ok joins =>
        simp [Builder.edited, Edit.run, Functor.map, Except.map, bind, Except.bind, pure, Except.pure]

theorem apply_eq (c : Call) (s : Select) : Builder.change .select s (apply c) =
    Builder.edited (.select s) (.select (leave c s)) (read c) := by
  cases c with
  | query tree =>
    cases tree with
    | map es => rfl
    | _ => rfl
  | project fields => exact Builder.change_read .select s .projection fun _ => rfl
  | join joins =>
    cases hitems : joinItems joins with
    | error e => simp only [apply, read, leave, hitems]; rfl
    | ok items =>
      simp only [apply, read, leave, hitems]
      exact addJoins_eq items s
  | sort v => exact Builder.change_read .select s .order fun _ => rfl
  | limit v => exact Builder.change_read .select s .limit fun _ => rfl
  | offset v => exact Builder.change_read .select s .offset fun _ => rfl

end Select

theorem Update.apply_eq (c : Call) (u : Update) : Builder.change .update u (apply c) =
    Builder.edited (.update u) (.update u) (read u.idField c) := by
  cases c with
  | query tree =>
    cases tree with
    | map es => rfl
    | _ => rfl
  | update v =>
    exact Builder.change_read .update u .payload (x := readPayload u.idField v) fun _ => rfl
  | single => rfl

theorem Delete.apply_eq (c : Call) (d : Delete) : Builder.change .delete d (apply c) =
    Builder.edited (.delete d) (.delete d) (read c) := by
  cases c with
  | query tree =>
    cases tree with
    | map es => rfl
    | _ => rfl
  | single => rfl

theorem Insert.apply_eq (c : Call) (i : Insert) : Builder.change .insert i (apply c) =
    Builder.edited (.insert i) (.insert (leave c i)) (read c) := by
  cases c with
  | insertOne v =>
    exact Builder.change_read .insert i (fun document => .documents [document]) fun _ => rfl
  | insertMany v =>
    cases hv : v.sequence? with
    | none =>
      simp only [apply, read, hv]
      rfl
    | some items =>
      simp only [apply, read, hv]
      exact Builder.change_read .insert i .documents fun _ => rfl
  | upsert enable fields =>
    have hfields : ∀ x : Except Error (List Value), Builder.change .insert i (do
        modify fun i => { i with upsert := enable.truthy }
        let fields ← x
        modify fun i => { i with upsertFields := some fields }) =
        Builder.edited (.insert i) (.insert { i with upsert := enable.truthy })
          ((fun items => .upsert enable.truthy (some items)) <$> x) := by
      intro x
      cases x <;> rfl
    cases fields with
    | null => rfl
    | _ => exact hfields _

theorem Aggregate.apply_eq (c : Call) (a : Aggregate) : Builder.change .aggregate a (apply c) =
    Builder.edited (.aggregate a) (.aggregate a) (read c) := by
  have hadd : ∀ v, Builder.change .aggregate a (addStage v) =
      Builder.edited (.aggregate a) (.aggregate a) (.stage <$> Stage.parse v) :=
    fun v => Builder.change_read .aggregate a .stage fun _ => rfl
  cases c with
  | add v => exact hadd v
  | named kind content => exact hadd (namedStage kind content)
  | project fields =>
    cases hcolumns : columns fields with
    | error e => simp only [apply, read, hcolumns]; rfl
    | ok content =>
      simp only [apply, read, hcolumns]
      exact hadd (namedStage .project content)
  | lookup spec more =>
    cases hcontent : lookupContent spec more with
    | error e => simp only [apply, read, hcontent]; rfl
    | ok content =>
      simp only [apply, read, hcontent]
      exact hadd (namedStage .lookup content)

namespace Builder

/-- A call makes the edit that it is read to, or fails as its reading does. -/
theorem apply_eq (call : Call) (b : Builder) :
    apply call b = edited b (leave call b) (read call b) := by
  cases call with
  | select c =>
    cases b with
    | select s => exact Select.apply_eq c s
    | _ => rfl
  | update c =>
    cases b with
    | update u => exact Update.apply_eq c u
    | _ => rfl
  | delete c =>
    cases b with
    | delete d => exact Delete.apply_eq c d
    | _ => rfl
  | insert c =>
    cases b with
    | insert i => exact Insert.apply_eq c i
    | _ => rfl
  | aggregate c =>
    cases b with
    | aggregate a => exact Aggregate.apply_eq c a
    | _ => rfl

end Builder

end BoundQuery
