import OscHost.Proofs.Script.Library.Base
import OscHost.Script.Library.HostApi
/-!
  The functions that the host offers are safe: a tree becomes new tables that hold plain values.
-/

namespace OscHost.Script

variable {V : Ward} {a : Actor} {args : Args}

/-! ## Trees as values -/

namespace Trees

theorem mapHeap_clean {α : Type} {f : α → Heap → Except String (Value × Heap)}
    (hf : ∀ x (h : Heap) v h', h.Good V → f x h = .ok (v, h') → v.Clean V ∧ h.Follows V h')
    {xs : List α} {acc : List Value} {h : Heap} {vs : List Value} {h' : Heap} (hg : h.Good V)
    (hacc : CleanAll V acc) (he : mapHeap f xs acc h = .ok (vs, h')) :
    CleanAll V vs ∧ h.Follows V h' := by
  induction xs generalizing acc h with
  | nil =>
    cases he
    exact ⟨cleanAll_reverse.mpr hacc, hg.follows⟩
  | cons x xs ih =>
    unfold mapHeap at he
    split at he
    · rename_i v h₁ hx
      obtain ⟨hv, hh⟩ := hf x h v h₁ hg hx
      obtain ⟨hvs, hh'⟩ := ih hh.good (cleanAll_cons.mpr ⟨hv, hacc⟩) he
      exact ⟨hvs, hh.trans hh'⟩
    · cases he

theorem toValueFrom_clean (room : Nat) {j : Json} {h : Heap} {v : Value} {h' : Heap}
    (hg : h.Good V) (he : toValueFrom room j h = .ok (v, h')) : v.Clean V ∧ h.Follows V h' := by
  induction room generalizing j h v h' with
  | zero => cases he
  | succ room ih =>
    unfold toValueFrom at he
    split at he
    · cases he
      exact ⟨trivial, hg.follows⟩
    · cases he
      exact ⟨trivial, hg.follows⟩
    · cases he
      refine ⟨?_, hg.follows⟩
      split <;> trivial
    · cases he
      exact ⟨Value.clean_ofFloat _, hg.follows⟩
    · cases he
      exact ⟨trivial, hg.follows⟩
    · split at he
      · cases he
      · rename_i values h₁ hm
        obtain ⟨hv, hh⟩ := mapHeap_clean (fun _ _ _ _ => ih) hg cleanAll_nil hm
        cases he
        refine ⟨hh.good.newTable_clean (.ofList values), hh.trans (hh.good.newTable ?_ fun m h => ?_)⟩
        · exact Table.each_ofList (fun _ => trivial) hv
        · rw [Table.metatable_ofList] at h
          cases h
    · split at he
      · cases he
      · rename_i members _ values h₁ hm
        obtain ⟨hv, hh⟩ := mapHeap_clean (fun _ _ _ _ => ih) hg cleanAll_nil hm
        cases he
        have ht : ∀ (ms : List ((String × Json) × Value)), (∀ m ∈ ms, m.2.Clean V) →
            Table.Each (Value.Clean V) (Value.Clean V)
              (ms.foldl (fun (t : Table) m => t.setText m.1.1 m.2) {}) ∧
            (ms.foldl (fun (t : Table) m => t.setText m.1.1 m.2) {}).metatable = none :=
          fun ms hms => List.foldlRecOn (motive := fun t : Table =>
              t.Each (Value.Clean V) (Value.Clean V) ∧ t.metatable = none) _ _
            ⟨Table.each_empty, rfl⟩ fun t ht m hm =>
              ⟨ht.1.set trivial (fun _ => trivial) trivial (hms m hm),
                (Table.metatable_set ..).trans ht.2⟩
        obtain ⟨hte, htm⟩ := ht (members.zip values) fun m h => hv _ (List.of_mem_zip h).2
        refine ⟨hh.good.newTable_clean ((members.zip values).foldl (fun (t : Table) m => t.setText m.1.1 m.2) {}), hh.trans (hh.good.newTable hte fun m h => ?_)⟩
        rw [htm] at h
        cases h

end Trees

namespace Library.HostApi

open Lib

theorem safe_logAll (rs : List LogRecord) : (logAll rs).Safe V a fun _ => True := by
  induction rs with
  | nil => exact .pure trivial
  | cons r rs ih => exact (safe_log r).then fun _ => ih

theorem safe_oscSend (args : Args) : (oscSend args).Safe V a (CleanAll V) := by
  unfold oscSend
  split
  · exact .pure (by simp)
  · refine .then (safe_read fun _ _ => trivial) fun values => (safe_logAll _).then fun _ => ?_
    refine .then (safe_ask trivial) fun r => ?_
    split
    · exact .pure (by simp)
    · exact .pure (by simp)
  · exact .then (safe_read fun _ _ => trivial) fun _ => .pure (by simp)

theorem safe_menuUpdate (ha : a.function = .builtin .menuUpdate) :
    menuUpdate.Safe V a (CleanAll V) :=
  (safe_ask (e := .requestMenu) ha).then fun _ => .pure cleanAll_nil

theorem safe_treeOf (v : Value) : (treeOf v).Safe V a fun _ => True :=
  .then (safe_read fun _ _ => trivial) fun _ => (safe_logAll _).then fun _ => .pure trivial

theorem safe_menuOnclick (args : Args) : (menuOnclick args).Safe V a (CleanAll V) :=
  (safe_treeOf _).then fun _ => (safe_log _).then fun _ => .pure cleanAll_nil

theorem safe_sleep (ha : a.function = .builtin .sleep) (args : Args) :
    (sleep args).Safe V a (CleanAll V) := by
  refine .ite (fun hn => ?_) fun _ => safe_raise _
  exact (safe_yield ⟨fun _ => ⟨_, hn, rfl⟩, fun hne => absurd ha hne⟩).discard.then
    fun _ => .pure cleanAll_nil

theorem safe_valueOf (tree : Json) :
    (valueOf tree).Safe V a fun r => ∀ v, r = .ok v → v.Clean V := by
  refine safe_update fun h hg => ?_
  split
  · obtain ⟨hv, hh⟩ := Trees.toValueFrom_clean _ hg ‹_›
    exact ⟨fun _ h => by cases h; exact hv, hh⟩
  · exact ⟨(fun _ h => nomatch h), hg.follows⟩

theorem safe_jsonRead (args : Args) : (jsonRead args).Safe V a (CleanAll V) := by
  refine (safe_hostText args 1).then fun path => .then (safe_ask trivial) fun r => ?_
  split
  · exact .pure (by simp)
  · refine (safe_valueOf _).bind fun r hr => ?_
    split
    · exact .pure (by simp [hr _ rfl])
    · exact .pure (by simp)

theorem safe_jsonWrite (args : Args) : (jsonWrite args).Safe V a (CleanAll V) := by
  refine (safe_hostText args 1).then fun path => .then (safe_read fun _ _ => trivial) fun tree => ?_
  refine .then (safe_ask trivial) fun r => ?_
  split
  · exact .pure (by simp)
  · exact .pure (by simp)

theorem safe_jsonEncode (args : Args) : (jsonEncode args).Safe V a (CleanAll V) :=
  (safe_treeOf _).then fun _ => .pure (by simp)

theorem safe_jsonDecode (args : Args) : (jsonDecode args).Safe V a (CleanAll V) := by
  refine (safe_hostText args 1).then fun text => ?_
  split
  · exact .pure (by simp)
  · refine (safe_valueOf _).bind fun r hr => ?_
    split
    · exact .pure (by simp [hr _ rfl])
    · exact safe_failHost _

theorem safe_errorText (args : Args) : (errorText args).Safe V a (CleanAll V) := by
  unfold errorText
  split
  · refine .then (safe_read fun _ _ => trivial) fun o => ?_
    split
    · exact .pure (by simp)
    · exact .pure (by simp)
  · exact .pure (by simp)

end Library.HostApi

end OscHost.Script
