import Mathlib.Data.List.Nodup
import TwinHeap.Proofs.Table.Sharing

/-! No object is live in two slots, and no free slot is lost. Nothing looks for it when a slot is
filled: it holds because an object that can come back to a detached slot has no other slot and is
looked for when it is exported again. -/
namespace TwinHeap.Exports

variable {t t' : Exports} {k j : ExportKey} {o x : ObjectId}

/-- Every live object has its place, and every free slot is listed. -/
structure Filed (t : Exports) : Prop where
  placed : ∀ k o, t.entry? k = some (.live o) → t.keyOf? o = some k
  listed : ∀ k, t.entry? k = some .free → k ∈ t.free ++ t.quarantine

theorem filed_empty : Filed {} where
  placed := fun _ _ live => nomatch live
  listed := fun _ free => nomatch free

theorem keyOf?_eq_some_iff (ordered : t.Ordered) (filed : t.Filed) :
    t.keyOf? o = some k ↔ t.entry? k = some (.live o) :=
  ⟨ordered.places o k, filed.placed k o⟩

theorem Filed.single (filed : t.Filed) (here : t.entry? j = some (.live o))
    (there : t.entry? k = some (.live o)) : j = k :=
  Option.some.inj ((filed.placed j o here).symm.trans (filed.placed k o there))

/-- The two lists hold a slot once if it is free, and else not at all. -/
theorem count_vacant (ordered : t.Ordered) (filed : t.Filed) (k : ExportKey) :
    (t.free ++ t.quarantine).count k = if t.entry? k = some .free then 1 else 0 := by
  rw [ordered.nodup.count]
  exact ite_congr (propext ⟨ordered.vacant k, filed.listed k⟩) (fun _ => rfl) fun _ => rfl

/-- The places of the objects are the live slots. -/
theorem liveCount_eq (ordered : t.Ordered) (filed : t.Filed) :
    t.liveCount = t.rows.keys.countP fun k => (t.object? k).isSome := by
  have entries : ∀ e, e ∈ t.places.entries ↔ t.entry? e.2 = some (.live e.1) := fun e =>
    Assoc.find?_eq_some_iff.symm.trans (keyOf?_eq_some_iff ordered filed)
  have nodup : (t.places.entries.map Prod.snd).Nodup := by
    have apart := t.places.nodup
    rw [List.Nodup, List.pairwise_map] at apart ⊢
    refine apart.imp_of_mem fun {d e} hd he differ same => differ ?_
    have live := (entries d).1 hd
    rw [same, (entries e).1 he, Option.some.injEq, ExportEntry.live.injEq] at live
    exact live.symm
  have perm : (t.places.entries.map Prod.snd).Perm
      (t.rows.keys.filter fun k => (t.object? k).isSome) := by
    refine (List.perm_ext_iff_of_nodup nodup ?_).2 fun k => ?_
    · exact (Rows.ascending_keys t.rows).nodup.filter _
    · simp only [List.mem_map, Prod.exists, exists_eq_right, entries, List.mem_filter, Rows.mem_keys,
        Option.isSome_iff_exists, object?_eq_some_iff]
      refine ⟨fun live => ⟨?_, live⟩, And.right⟩
      obtain ⟨o, live⟩ := live
      exact decide_eq_true (Exports.lt_size_of_entry? live)
  rw [List.countP_eq_length_filter, ← perm.length_eq, List.length_map]
  rfl

section Steps

/-- The object `o` has got the slot `k`, which had none. At most the note of `o` is spent. -/
structure Gains (t : Exports) (k : ExportKey) (o : ObjectId) (t' : Exports) : Prop where
  entry : ∀ j, t'.entry? j = if k = j then some (.live o) else t.entry? j
  places : t'.places = t.places.insert o k
  lists : ∀ j, k ≠ j → j ∈ t.free ++ t.quarantine → j ∈ t'.free ++ t'.quarantine
  overridden : t'.overridden = t.overridden
  note : ∀ x j, t'.note? x = some j → t.note? x = some j
  others : ∀ x, x ≠ o → t'.note? x = t.note? x

theorem gains_restore (forgets : Forgets t o t') (detached : t.entry? k = some .detached) :
    Gains t k o (t'.restore k o) where
  entry := fun j => by
    rw [entry?_restore ((forgets.entry? k).trans detached), forgets.entry?]
  places := congrArg (fun places => Assoc.insert places o k) forgets.places
  lists := fun j _ member => by
    have free : (t'.restore k o).free = t.free := forgets.free
    have quarantine : (t'.restore k o).quarantine = t.quarantine := forgets.quarantine
    rwa [free, quarantine]
  overridden := forgets.overridden
  note := forgets.note
  others := forgets.others

/-- An object without a place gets one, if there is room. -/
theorem gains_assign (ordered : t.Ordered) (o : ObjectId) :
    (t.assign o).state = t ∨ ∃ k, Gains t k o (t.assign o).state := by
  cases answer : (t.assign o).answer with
  | error f => exact .inl (assign_error answer).1
  | ok k =>
      have entry := (fills_assign ordered answer).1.entry
      refine .inr ⟨k, ?_⟩
      unfold assign at answer entry ⊢
      split at answer
      · rename_i n free listed
        cases answer
        rw [listed] at entry
        refine ⟨entry, rfl, fun j apart member => ?_, rfl, fun _ _ noted => noted, fun _ _ => rfl⟩
        rw [listed, List.cons_append] at member
        exact (List.mem_cons.1 member).resolve_left (Ne.symm apart)
      · rename_i listed
        rw [listed] at entry
        split at answer
        · rename_i room
          cases answer
          simp only [if_pos room] at entry ⊢
          exact ⟨entry, rfl, fun j _ member => listed ▸ member, rfl, fun _ _ noted => noted,
            fun _ _ => rfl⟩
        · cases answer

theorem Gains.of_forgets (forgets : Forgets t o t') {t'' : Exports} (gains : Gains t' k o t'') :
    Gains t k o t'' where
  entry := fun j => by rw [gains.entry, forgets.entry?]
  places := by rw [gains.places, forgets.places]
  lists := fun j apart member => gains.lists j apart (by rwa [forgets.free, forgets.quarantine])
  overridden := gains.overridden.trans forgets.overridden
  note := fun x j noted => forgets.note x j (gains.note x j noted)
  others := fun x differ => (gains.others x differ).trans (forgets.others x differ)

theorem Gains.filed (gains : Gains t k o t') (filed : t.Filed) (loose : t.keyOf? o = none) :
    t'.Filed where
  placed := fun j x live => by
    rw [gains.entry] at live
    rw [keyOf?, gains.places, Assoc.find?_insert]
    split at live
    · rename_i here
      cases live
      rw [if_pos rfl, here]
    · have place := filed.placed j x live
      rw [if_neg]
      · exact place
      · rintro rfl
        cases loose.symm.trans place
  listed := fun j free => by
    rw [gains.entry] at free
    split at free
    · cases free
    · rename_i apart
      exact gains.lists j apart (filed.listed j free)

/-- An object loses its slot. -/
theorem filed_vacate {e : ExportEntry} (filed : t.Filed) (live : t.entry? k = some (.live o))
    (entry : ∀ j, t'.entry? j = if k = j then some e else t.entry? j) (gone : ∀ x, e ≠ .live x)
    (places : t'.places = t.places.erase o)
    (lists : ∀ j, (k = j → e = .free) → k = j ∨ j ∈ t.free ++ t.quarantine →
      j ∈ t'.free ++ t'.quarantine) : t'.Filed where
  placed := fun j x there => by
    rw [entry] at there
    rw [keyOf?, places, Assoc.find?_erase]
    split at there
    · exact (gone x (Option.some.inj there)).elim
    · rename_i apart
      rw [if_neg]
      · exact filed.placed j x there
      · rintro rfl
        exact apart (filed.single live there)
  listed := fun j free => by
    rw [entry] at free
    split at free
    · rename_i here
      exact lists j (fun _ => Option.some.inj free) (.inl here)
    · rename_i apart
      exact lists j (fun here => (apart here).elim) (.inr (filed.listed j free))

theorem filed_detach (filed : t.Filed) (k : ExportKey) : (t.detach k).2.Filed := by
  cases holds : t.object? k with
  | none => simpa only [detach, holds] using filed
  | some o =>
      have entry : ∀ j, Exports.entry? (t.detach k).2 j =
          if k = j then some .detached else t.entry? j := by
        intro j
        rw [entry?_detach, holds]
        simp
      refine filed_vacate filed (object?_eq_some_iff.1 holds) entry (fun _ same => by cases same)
        (by simp only [detach, holds]) fun j vacant member => ?_
      simp only [detach, holds]
      rcases member with here | old
      · cases vacant here
      · exact old

theorem filed_release (filed : t.Filed) (k : ExportKey) : (t.release k).2.Filed := by
  by_cases used : t.Used k
  · have entry : ∀ j, Exports.entry? (t.release k).2 j =
        if k = j then some .free else t.entry? j := by
      intro j
      simp [entry?_release, used]
    have lists : ∀ j, k = j ∨ j ∈ t.free ++ t.quarantine →
        j ∈ (t.release k).2.free ++ (t.release k).2.quarantine := by
      intro j member
      rw [(perm_release used).mem_iff, List.mem_cons]
      exact member.imp Eq.symm id
    rcases used with detached | ⟨o, live⟩
    · have places : (t.release k).2.places = t.places := by simp only [release, detached]
      refine ⟨fun j x there => ?_, fun j free => ?_⟩
      · rw [entry] at there
        rw [keyOf?, places]
        split at there
        · cases there
        · exact filed.placed j x there
      · rw [entry] at free
        split at free
        · rename_i here
          exact lists j (.inl here)
        · exact lists j (.inr (filed.listed j free))
    · exact filed_vacate filed live entry (fun _ same => by cases same)
        (by simp only [release, live]) fun j _ => lists j
  · rw [release_of_not_used used]
    exact filed

theorem filed_detachAll (filed : t.Filed) (l : List (ExportKey × ObjectId)) :
    (t.detachAll l).Filed := by
  induction l generalizing t with
  | nil => exact filed
  | cons e l ih => exact ih (filed_detach filed e.1)

theorem filed_releaseAll (filed : t.Filed) (keys : List ExportKey) : (t.releaseAll keys).Filed := by
  induction keys generalizing t with
  | nil => exact filed
  | cons k keys ih => exact ih (filed_release filed k)

theorem filed_finishRepair (filed : t.Filed) : t.finishRepair.Filed where
  placed := filed.placed
  listed := fun k free => by
    have member := filed.listed k free
    simp only [finishRepair, List.append_nil, List.mem_append] at member ⊢
    exact member.symm

theorem filed_setUnlinked (filed : t.Filed) (l : List (ObjectId × ExportKey)) :
    (t.setUnlinked l).Filed :=
  ⟨filed.placed, filed.listed⟩

theorem filed_override (filed : t.Filed) : t.override.Filed := ⟨filed.placed, filed.listed⟩

theorem Spends.filed (spends : Spends t t') (filed : t.Filed) : t'.Filed := by
  rw [spends.rest]
  exact ⟨filed.placed, filed.listed⟩

end Steps

section Returning

/-- The lists are complete, and what can come back to a detached slot is noted for it, is looked for
when it is exported, and has no slot. `Claims k o` says that a record names the slot with the
object. -/
structure Exclusive (t : Exports) (Claims : ExportKey → ObjectId → Prop) : Prop where
  filed : t.Filed
  returning : ∀ k x, t.entry? k = some .detached → t.note? x = some k ∨ Claims k x →
    t.overridden = true ∧ t.note? x = some k ∧ t.keyOf? x = none

variable {Claims Fewer : ExportKey → ObjectId → Prop}

theorem Exclusive.mono (exclusive : t.Exclusive Claims)
    (fewer : ∀ k x, Fewer k x → Claims k x) : t.Exclusive Fewer :=
  ⟨exclusive.filed, fun k x detached named =>
    exclusive.returning k x detached (named.imp id (fewer k x))⟩

/-- Nothing can come back. -/
theorem Filed.exclusive (filed : t.Filed) (forgotten : ∀ x, t.note? x = none)
    (unclaimed : ∀ k x, ¬ Claims k x) : t.Exclusive Claims where
  filed := filed
  returning := fun k x _ named => by
    rcases named with noted | claimed
    · exact nomatch (forgotten x).symm.trans noted
    · exact (unclaimed k x claimed).elim

theorem exclusive_releaseAll (exclusive : t.Exclusive Claims) (ordered : t.Ordered)
    (keys : List ExportKey) : (t.releaseAll keys).Exclusive Claims where
  filed := filed_releaseAll exclusive.filed keys
  returning := fun k x detached named => by
    have kept := ordered_releaseAll ordered keys
    have note : (t.releaseAll keys).note? x = t.note? x := by rw [note?, kept.2.2, note?]
    have overridden : (t.releaseAll keys).overridden = t.overridden := by
      clear kept note detached named exclusive ordered
      induction keys generalizing t with
      | nil => rfl
      | cons k keys ih =>
          refine (ih (t := (t.release k).2)).trans ?_
          unfold release
          split <;> rfl
    have before : t.entry? k = some .detached := by
      rw [entry?_releaseAll] at detached
      split at detached
      · cases detached
      · exact detached
    rw [note] at named ⊢
    obtain ⟨looked, noted, loose⟩ := exclusive.returning k x before named
    refine ⟨overridden.trans looked, noted, ?_⟩
    cases place : (t.releaseAll keys).keyOf? x with
    | none => rfl
    | some j =>
        have live := kept.1.places x j place
        rw [entry?_releaseAll] at live
        split at live
        · cases live
        · cases loose.symm.trans (exclusive.filed.placed j x live)

/-- The notes of an object are spent that can come back to no slot. -/
theorem Forgets.exclusive (forgets : Forgets t o t') (exclusive : t.Exclusive Claims)
    (unnamed : ∀ k, t.entry? k = some .detached → ¬ (t.note? o = some k ∨ Claims k o)) :
    t'.Exclusive Claims where
  filed := forgets.filed exclusive.filed
  returning := fun k x detached named => by
    have before := (forgets.entry? k).symm.trans detached
    have named := named.imp (forgets.note x k) id
    have differ : x ≠ o := fun same => unnamed k before (same ▸ named)
    obtain ⟨looked, noted, loose⟩ := exclusive.returning k x before named
    exact ⟨forgets.overridden.trans looked,
      (forgets.others x differ).trans noted, (forgets.keyOf? x).trans loose⟩

/-- An object that can come back to no other slot gets one. -/
theorem Gains.exclusive (gains : Gains t k o t') (exclusive : t.Exclusive Claims)
    (loose : t.keyOf? o = none)
    (unnamed : ∀ j, k ≠ j → t.entry? j = some .detached → ¬ (t.note? o = some j ∨ Claims j o)) :
    t'.Exclusive Claims where
  filed := gains.filed exclusive.filed loose
  returning := fun j x detached named => by
    rw [gains.entry] at detached
    split at detached
    · cases detached
    · rename_i apart
      have named := named.imp (gains.note x j) id
      have differ : x ≠ o := fun same => unnamed j apart detached (same ▸ named)
      obtain ⟨looked, noted, free⟩ := exclusive.returning j x detached named
      refine ⟨gains.overridden.trans looked, (gains.others x differ).trans noted, ?_⟩
      rw [keyOf?, gains.places, Assoc.find?_insert, if_neg (Ne.symm differ)]
      exact free

/-- An object comes back to the detached slot that is noted for it. -/
theorem exclusive_restore (exclusive : t.Exclusive Claims) (forgets : Forgets t o t')
    (detached : t.entry? k = some .detached) (named : t.note? o = some k ∨ Claims k o) :
    (t'.restore k o).Exclusive Claims := by
  obtain ⟨-, noted, loose⟩ := exclusive.returning k o detached named
  refine (gains_restore forgets detached).exclusive exclusive loose fun j apart waiting named => ?_
  have mine := (exclusive.returning j o waiting named).2.1
  exact apart (Option.some.inj (noted.symm.trans mine))

theorem exclusive_restoreAll {l : List (ExportKey × ObjectId)} (exclusive : t.Exclusive Claims)
    (detached : ∀ e ∈ l, t.entry? e.1 = some .detached) (nodup : (l.map Prod.fst).Nodup)
    (claimed : ∀ e ∈ l, Claims e.1 e.2) : (t.restoreAll l).Exclusive Claims := by
  induction l generalizing t with
  | nil => exact exclusive
  | cons e l ih =>
      obtain ⟨k, o⟩ := e
      rw [List.map_cons, List.nodup_cons] at nodup
      have first := exclusive_restore exclusive (.refl t o) (detached (k, o) List.mem_cons_self)
        (.inr (claimed (k, o) List.mem_cons_self))
      exact ih first (detached_restore detached nodup.1) nodup.2
        fun e member => claimed e (List.mem_cons_of_mem _ member)

theorem exclusive_reinstate (exclusive : t.Exclusive Claims) (k : ExportKey) :
    (t.reinstate k).state.Exclusive Claims := by
  rcases t.reinstate_cases k with ⟨-, same⟩ | ⟨o, r, -, noted, detached, forgets, state⟩
  · rw [same]
    exact exclusive
  · rw [state]
    exact exclusive_restore exclusive forgets detached (.inl noted)

theorem share_of_noted (looked : t.overridden = true) (noted : t.note? o = some k)
    (detached : t.entry? k = some .detached) :
    (t.share o).state =
      Exports.restore { t with unlinked := t.unlinked.map fun m => m.erase o } k o := by
  have found : (t.unlinked.bind fun m => m.find? o) = some k := noted
  simp only [share, looked, if_true, regain, found, detached]

theorem answer_share_of_noted (looked : t.overridden = true) (noted : t.note? o = some k)
    (detached : t.entry? k = some .detached) : (t.share o).answer = .ok k := by
  have found : (t.unlinked.bind fun m => m.find? o) = some k := noted
  simp only [share, looked, if_true, regain, found, detached]

/-- A live object is shared as the slot that it has. -/
theorem answer_share_of_live (exclusive : t.Exclusive Claims) (live : t.entry? k = some (.live o)) :
    (t.share o).answer = .ok k := by
  have place := exclusive.filed.placed k o live
  rcases t.share_cases o with ⟨r, forgets, -, answer⟩ | ⟨j, answer, there, -⟩ |
      ⟨j, r, -, noted, detached, -, -⟩
  · rw [answer, settle, forgets.keyOf?, place]
  · rw [answer, exclusive.filed.single there live]
  · cases place.symm.trans (exclusive.returning j o detached (.inl noted)).2.2

/-- What the notes say of an object is left alone when another one is shared. -/
theorem note?_share (ordered : t.Ordered) (differ : x ≠ o) :
    (t.share o).state.note? x = t.note? x := by
  rcases t.share_cases o with ⟨r, forgets, state, -⟩ | ⟨k, -, -, forgets⟩ |
      ⟨k, r, -, -, -, forgets, state⟩
  · rw [state, settle]
    split
    · exact forgets.others x differ
    · rcases gains_assign (forgets.ordered ordered) o with same | ⟨k, gains⟩
      · rw [same]
        exact forgets.others x differ
      · exact (gains.others x differ).trans (forgets.others x differ)
  · exact forgets.others x differ
  · rw [state]
    exact forgets.others x differ

/-- An object that can come back to a slot is given that one and no other. -/
theorem exclusive_share (exclusive : t.Exclusive Claims) (ordered : t.Ordered) (o : ObjectId) :
    (t.share o).state.Exclusive Claims := by
  by_cases named : ∃ k, t.entry? k = some .detached ∧ (t.note? o = some k ∨ Claims k o)
  · obtain ⟨k, detached, named⟩ := named
    obtain ⟨looked, noted, -⟩ := exclusive.returning k o detached named
    rw [share_of_noted looked noted detached]
    exact exclusive_restore exclusive (forgets_erase t o) detached named
  · have unnamed : ∀ k, t.entry? k = some .detached → ¬ (t.note? o = some k ∨ Claims k o) :=
      fun k detached either => named ⟨k, detached, either⟩
    rcases t.share_cases o with ⟨r, forgets, state, -⟩ | ⟨k, -, -, forgets⟩ |
        ⟨k, r, -, noted, detached, -, -⟩
    · rw [state]
      have still := forgets.exclusive exclusive unnamed
      unfold settle
      split
      · exact still
      · rename_i loose
        rcases gains_assign (forgets.ordered ordered) o with same | ⟨k, gains⟩
        · exact same.symm ▸ still
        · exact (gains.of_forgets forgets).exclusive exclusive ((forgets.keyOf? o).symm.trans loose)
            fun j _ => unnamed j
    · exact forgets.exclusive exclusive unnamed
    · exact (unnamed k detached (.inl noted)).elim

/-- Objects that have no place come back to detached slots. -/
theorem filed_restoreAll {l : List (ExportKey × ObjectId)} (filed : t.Filed)
    (detached : ∀ e ∈ l, t.entry? e.1 = some .detached) (keys : (l.map Prod.fst).Nodup)
    (loose : ∀ e ∈ l, t.keyOf? e.2 = none) (objects : (l.map Prod.snd).Nodup) :
    (t.restoreAll l).Filed := by
  induction l generalizing t with
  | nil => exact filed
  | cons e l ih =>
      obtain ⟨k, o⟩ := e
      rw [List.map_cons, List.nodup_cons] at keys objects
      have first := gains_restore (.refl t o) (detached (k, o) List.mem_cons_self)
      refine ih (first.filed filed (loose (k, o) List.mem_cons_self))
        (detached_restore detached keys.1) keys.2 (fun e member => ?_) objects.2
      rw [keyOf?, first.places, Assoc.find?_insert, if_neg]
      · exact loose e (List.mem_cons_of_mem _ member)
      · intro same
        exact objects.1 (same ▸ List.mem_map.2 ⟨e, member, rfl⟩)

section Unlink

variable {l : List (ExportKey × ObjectId)} (live : ∀ k x, (k, x) ∈ l → t.entry? k = some (.live x))

include live

/-- No object is listed for two slots, so that all that is listed is noted. -/
theorem note?_unlink_iff (filed : t.Filed) :
    ((t.detachAll l).setUnlinked (l.map fun e => (e.2, e.1))).note? x = some k ↔ (k, x) ∈ l := by
  have listed : ∀ j, (x, j) ∈ l.map (fun e => (e.2, e.1)) → (j, x) ∈ l := by
    intro j member
    obtain ⟨e, listed, same⟩ := List.mem_map.1 member
    cases same
    exact listed
  refine ⟨fun noted => listed k (mem_of_note?_setUnlinked noted), fun member => ?_⟩
  refine (Assoc.find?_ofList fun j other => ?_).2 (List.mem_map.2 ⟨(k, x), member, rfl⟩)
  exact filed.single (live j x (listed j other)) (live k x member)

theorem detachAll_cases (k : ExportKey) :
    (∃ x, (k, x) ∈ l) ∧ entry? (t.detachAll l) k = some .detached ∨
      (∀ x, (k, x) ∉ l) ∧ entry? (t.detachAll l) k = t.entry? k := by
  have entry : entry? (t.detachAll l) k = _ := entry?_detachAll t l k
  rw [entry]
  split
  · rename_i both
    obtain ⟨⟨j, x⟩, member, rfl⟩ := List.mem_map.1 both.1
    exact .inl ⟨⟨x, member⟩, rfl⟩
  · rename_i other
    refine .inr ⟨fun x member => other ⟨List.mem_map.2 ⟨(k, x), member, rfl⟩, ?_⟩, rfl⟩
    exact Option.isSome_iff_exists.2 ⟨x, object?_eq_some_iff.2 (live k x member)⟩

/-- Live slots are severed and noted with what they held, which is all that records may claim. -/
theorem exclusive_unlink (ordered : t.Ordered) (filed : t.Filed)
    (claimed : ∀ k x, Claims k x → t.entry? k = some (.live x)) :
    ((t.detachAll l).setUnlinked (l.map fun e => (e.2, e.1))).override.Exclusive Claims where
  filed := filed_override (filed_setUnlinked (filed_detachAll filed l) _)
  returning := fun k x detached named => by
    have severed : (k, x) ∈ l := by
      rcases named with noted | claim
      · exact (note?_unlink_iff live filed).1 noted
      · have before := claimed k x claim
        rcases detachAll_cases live k with ⟨⟨y, member⟩, -⟩ | ⟨-, same⟩
        · cases before.symm.trans (live k y member)
          exact member
        · cases before.symm.trans (same.symm.trans detached)
    refine ⟨rfl, (note?_unlink_iff live filed).2 severed, ?_⟩
    cases place : (t.detachAll l).keyOf? x with
    | none => exact place
    | some j =>
        have there := (ordered_detachAll ordered l).1.places x j place
        rcases detachAll_cases live j with ⟨-, gone⟩ | ⟨unlisted, same⟩
        · cases gone.symm.trans there
        · have one := filed.single (same.symm.trans there) (live k x severed)
          exact (unlisted x (one ▸ severed)).elim

end Unlink

end Returning

section Consistent

/-- The reverse index is the inverse of the live slots, and the two lists hold a slot once if it is
free, and else not at all. Slot numbers fit their 32 bits. -/
structure Consistent (t : Exports) : Prop where
  place : ∀ o k, t.keyOf? o = some k ↔ t.entry? k = some (.live o)
  vacant : ∀ k, (t.free ++ t.quarantine).count k = if t.entry? k = some .free then 1 else 0
  size_le : t.size ≤ slotLimit

theorem consistent_iff : t.Consistent ↔ t.Ordered ∧ t.Filed := by
  constructor
  · rintro ⟨place, vacant, size_le⟩
    have listed : ∀ k, k ∈ t.free ++ t.quarantine ↔ t.entry? k = some .free := by
      intro k
      rw [← List.count_pos_iff, vacant]
      split <;> simp_all
    refine ⟨⟨fun o k => (place o k).1, fun k => (listed k).1, ?_, size_le⟩,
      fun k o => (place o k).2, fun k => (listed k).2⟩
    refine List.nodup_iff_count_le_one.2 fun k => ?_
    rw [vacant]
    split <;> omega
  · rintro ⟨ordered, filed⟩
    exact ⟨fun _ _ => keyOf?_eq_some_iff ordered filed, count_vacant ordered filed, ordered.size_le⟩

/-- Only the entries of the table have to be looked at. -/
theorem consistent_iff_entries : t.Consistent ↔
    (∀ e ∈ t.places.entries, t.entry? e.2 = some (.live e.1)) ∧
    (∀ e ∈ t.liveObjects, t.keyOf? e.2 = some e.1) ∧
    (∀ k ∈ t.free ++ t.quarantine, t.entry? k = some .free) ∧
    (∀ e ∈ t.rows.entries, e.2 = .free → e.1 ∈ t.free ++ t.quarantine) ∧
    (t.free ++ t.quarantine).Nodup ∧ t.size ≤ slotLimit := by
  rw [consistent_iff]
  constructor
  · rintro ⟨ordered, filed⟩
    refine ⟨fun e member => ?_, fun e member => ?_, ordered.vacant, fun e member free => ?_,
      ordered.nodup, ordered.size_le⟩
    · exact ordered.places e.1 e.2 (Assoc.find?_eq_some_iff.2 member)
    · exact filed.placed e.1 e.2 (mem_liveObjects.1 member)
    · exact filed.listed e.1 (free ▸ Rows.mem_entries.1 member)
  · rintro ⟨places, live, vacant, listed, nodup, size_le⟩
    refine ⟨⟨fun o k found => ?_, vacant, nodup, size_le⟩, fun k o entry => ?_, fun k free => ?_⟩
    · exact places (o, k) (Assoc.find?_eq_some_iff.1 found)
    · exact live (k, o) (mem_liveObjects.2 entry)
    · exact listed (k, .free) (Rows.mem_entries.2 free) rfl

instance (t : Exports) : Decidable t.Consistent := decidable_of_iff _ consistent_iff_entries.symm

theorem consistent_unlink (ordered : t.Ordered) (filed : t.Filed) (l : List (ExportKey × ObjectId)) :
    ((t.detachAll l).setUnlinked (l.map fun e => (e.2, e.1))).override.Consistent :=
  consistent_iff.2 ⟨ordered_override (ordered_setUnlinked (ordered_detachAll ordered l).1 _),
    filed_override (filed_setUnlinked (filed_detachAll filed l) _)⟩

end Consistent

end TwinHeap.Exports
