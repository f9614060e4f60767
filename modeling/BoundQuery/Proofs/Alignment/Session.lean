import BoundQuery.Proofs.Alignment.Filter
import BoundQuery.Proofs.Discipline.Session
import BoundQuery.Proofs.Discipline.Statement
import BoundQuery.Proofs.Registration
import BoundQuery.Proofs.Statement.Nested

/-! Every statement that a session compiles is aligned with its values: calls whose text has no
placeholders leave builders whose text has none, and sub-queries are statements of such builders. -/
namespace BoundQuery

def Source.Clean : Source → Prop
  | .builder b => b.RawText NoPlaceholder
  | .fixed s => Aligned s.sql s.params

theorem Source.clean_iff {s : Source} : s.Clean ↔ s.Keeps .aligned := by
  cases s with
  | builder b => exact Iff.rfl
  | fixed s => exact ⟨fun h _ => h, fun h => h 0⟩

structure Catalogue.Clean (c : Catalogue) : Prop where
  handlers : ∀ r ∈ c.registries, ∀ h ∈ r.handlers, h.2.Aligned
  sources : ∀ s ∈ c.sources, s.Clean

namespace Catalogue

variable {c : Catalogue}

theorem registry_aligned (hc : ∀ r ∈ c.registries, ∀ h ∈ r.handlers, h.2.Aligned)
    (id : RegistryId) : ∀ h ∈ (c.registry id).handlers, h.2.Aligned := by
  unfold Catalogue.registry
  cases hr : c.registries[id]? with
  | none => simp
  | some r => exact hc r (List.mem_of_getElem? hr)

theorem Clean.find (hc : c.Clean) (id : RegistryId) {name : String} {h : Handler}
    (hfind : (c.registry id).find? name = some h) : h.Aligned := by
  obtain ⟨before, after, heq, -⟩ := List.lookup_eq_some_iff.mp hfind
  exact registry_aligned hc.handlers id (name, h) (by simp [heq])

theorem Clean.appends (hc : c.Clean) (id : RegistryId) : (c.scope id).Appends :=
  fun _ _ hfind => (hc.find id hfind).appends

theorem vocabulary_keeps (hc : c.Clean) {subquery : Nat → Statement → Prop}
    (hsubquery : ∀ id s, subquery id s → Aligned s.sql s.params) (registry : RegistryId) :
    (c.vocabulary subquery registry).Keeps .aligned where
  handler := by
    intro name write field operand s hwrite hf hs _
    obtain ⟨h, hfind, rfl⟩ := Option.map_eq_some_iff.mp hwrite
    obtain ⟨context, params, hcall⟩ := hs
    exact (hc.find registry hfind).aligned field operand context params s hf hcall
  subquery ref s hs _ := hsubquery ref.id s hs

theorem SpellsSource.aligned (hc : c.Clean) {subquery : Nat → Statement → Prop}
    (hsubquery : ∀ id s, subquery id s → Aligned s.sql s.params) {id : Nat} {fs : Fragments}
    (h : c.SpellsSource subquery id fs) : fs.InOrder := by
  obtain ⟨source, hsource, hspelled⟩ := h
  have hclean := hc.sources source (List.mem_of_getElem? hsource)
  cases hspelled with
  | builder spelled => exact spelled.keeps (vocabulary_keeps hc hsubquery _) hclean 0
  | fixed s => exact Fragments.InOrder.whole hclean

/-- By induction on the depth: what is nested in a sub-query is nested one less deep. -/
theorem embeds_aligned (hc : c.Clean) (depth : Nat) :
    ∀ id s, c.Embeds depth id s → Aligned s.sql s.params := by
  induction depth with
  | zero => exact fun id s h => h.elim
  | succ depth ih =>
    rintro id _ ⟨source, fs, -, hfs, rfl⟩
    exact (hfs.aligned hc ih).enclosed

end Catalogue

namespace Session

/-- An action whose text has no placeholders, and whose handlers and statements are aligned. -/
def Action.Clean : Action → Prop
  | .addRegistry => True
  | .register _ _ handler => ∀ h, handler = some h → h.Aligned
  | .addStatement s => Aligned s.sql s.params
  | .start _ table _ idField pipeline => Builder.StartText NoPlaceholder table idField pipeline
  | .wrap _ => True
  | .call _ c => c.RawText NoPlaceholder
  | .compile _ => True
  | .embed _ => True
  | .remembered _ => True

theorem Action.Clean.keeps {action : Action} (h : action.Clean) : action.Keeps .aligned := by
  cases action with
  | addStatement s => exact fun _ => h
  | start kind table registry idField pipeline => exact h
  | call id c => exact h
  | _ => trivial

/-- Handlers come from registrations alone. -/
theorem perform_handlers {w : Workspace} (hw : ∀ r ∈ w.registries, ∀ h ∈ r.handlers, h.2.Aligned)
    {action : Action} (ha : action.Clean) :
    ∀ r ∈ (perform action w).registries, ∀ h ∈ r.handlers, h.2.Aligned := by
  rw [registries_perform]
  intro r hr f hf
  cases action with
  | addRegistry =>
    rcases List.mem_append.mp hr with hr | hr
    · exact hw r hr f hf
    · obtain rfl := List.mem_singleton.mp hr
      cases hf
  | register id operator handler =>
    cases handler with
    | none => exact hw r hr f hf
    | some given =>
      rcases List.mem_or_eq_of_mem_set hr with hr | rfl
      · exact hw r hr f hf
      · rcases List.mem_append.mp hf with hf | hf
        · exact Catalogue.registry_aligned hw id f hf
        · obtain rfl := List.mem_singleton.mp hf
          exact ha given rfl
  | _ => exact hw r hr f hf

theorem run_clean {actions : List Action} (h : ∀ action ∈ actions, action.Clean) :
    (run actions {}).Clean where
  handlers := run_keeps (I := fun w => ∀ r ∈ w.registries, ∀ h ∈ r.handlers, h.2.Aligned) (by simp)
    fun action ha _ hw => perform_handlers hw (h action ha)
  sources s hs := Source.clean_iff.mpr (run_sources_keep (fun action ha => (h action ha).keeps) s hs)

/-- The values of a statement are those of its placeholders, from left to right: it is written by
the rules, each value in the place it is for, and cut at its placeholders it has these values. -/
theorem compile_binds_placeholders_in_order (actions : List Action)
    (h : ∀ action ∈ actions, action.Clean) (id : Nat) (s : Statement) (w : Workspace)
    (hs : compile id (run actions {}) = .ok s w) :
    (∃ fs, (run actions {}).Spells id fs ∧ s = fs.statement) ∧ Aligned s.sql s.params ∧
      s.sql.toList.count '?' = s.params.length := by
  have hw := run_clean h
  unfold compile ofWork at hs
  split at hs
  · rename_i t j ht
    obtain ⟨rfl, -⟩ := hs
    have hembed := Catalogue.embed_spelled hw.appends (run actions {}).depth
    obtain ⟨fs, hfs, rfl⟩ := Catalogue.compileSource_spelled hw.appends hembed ht
    have haligned : fs.InOrder := hfs.aligned hw (Catalogue.embeds_aligned hw _)
    exact ⟨⟨fs, hfs, rfl⟩, haligned, haligned.count_eq_length⟩
  · cases hs

def nestedUpdate : List Action :=
  [.start .select (.str "orders") 0 .null .null,
   .call 0 (.select (.query (.map [(.str "total", .map [(.str "$gt", .int 5)])]))),
   .wrap (.source 0),
   .start .update (.str "users") 0 .null .null,
   .call 1 (.update (.query (.map [(.str "id", .map
     [(.str "$in", .list [.int 1, .subquery ⟨0, "SubQuery(SELECT)"⟩, .int 2])])]))),
   .call 1 (.update (.update (.map [(.str "name", .str "?")])))]

theorem nestedUpdate_clean : ∀ action ∈ nestedUpdate, action.Clean := by
  have hstart : ∀ table, NoPlaceholder table →
      Builder.StartText NoPlaceholder (.str table) .null .null := by
    intro table ht
    exact ⟨ht, by decide, fun stages h => nomatch h⟩
  have hpayload : Update.Call.RawText NoPlaceholder (.update (.map [(.str "name", .str "?")])) := by
    intro idField payload h
    obtain rfl := Except.ok.inj h
    simp +decide [Payload.RawText, UpdateOperator.OperandText]
  have hnames : Filter.Names NoPlaceholder (.map [(.str "total", .map [(.str "$gt", .int 5)])]) :=
    ⟨show NoPlaceholder "total" by decide, trivial⟩
  have hids : Filter.Names NoPlaceholder (.map [(.str "id", .map
      [(.str "$in", .list [.int 1, .subquery ⟨0, "SubQuery(SELECT)"⟩, .int 2])])]) :=
    ⟨show NoPlaceholder "id" by decide, trivial⟩
  simp only [nestedUpdate, List.forall_mem_cons]
  exact ⟨hstart "orders" (by decide), hnames, trivial, hstart "users" (by decide), hids, hpayload,
    by simp⟩

theorem nestedUpdate_binds_in_order : (∀ action ∈ nestedUpdate, action.Clean) ∧
    ∃ s w, compile 1 (run nestedUpdate {}) = .ok s w ∧
      s.sql = "UPDATE users SET name = ? WHERE id IN (?, (SELECT * FROM orders WHERE total > ?), ?)" ∧
      s.params = [.str "?", .int 1, .int 5, .int 2] ∧
      (∃ fs, (run nestedUpdate {}).Spells 1 fs ∧ s = fs.statement) ∧ Aligned s.sql s.params ∧
      s.sql.toList.count '?' = s.params.length := by
  refine ⟨nestedUpdate_clean, _, _, rfl, by decide, rfl, ?_⟩
  exact compile_binds_placeholders_in_order nestedUpdate nestedUpdate_clean 1 _ _ rfl

end Session

end BoundQuery
