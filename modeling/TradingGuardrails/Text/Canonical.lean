import TradingGuardrails.Text.StableText

/-!
When the text with sorted keys is canonical. A program lists the members of an object in
the order of the language: array indices first, by number, then the other keys as they
were inserted. A stable sort leaves keys that the comparison equates in that order, so
the text does not depend on the order of insertion exactly when the comparison separates
the keys that are not array indices.
-/
namespace Text

structure TotalPreorder (le : String → String → Bool) : Prop where
  total : ∀ a b, le a b = true ∨ le b a = true
  trans : ∀ {a b c}, le a b = true → le b c = true → le a c = true

def arrayIndex? (key : String) : Option Nat :=
  match key.toList with
  | [] => none
  | c :: cs =>
      let n := digitsValue (c :: cs)
      if (c :: cs).all Char.isDigit && (c != '0' || cs.isEmpty) && n < 4294967295 then some n
      else none

def mayPrecede (a b : String) : Bool :=
  match arrayIndex? a, arrayIndex? b with
  | some m, some n => m < n
  | none, some _ => false
  | _, none => true

theorem mayPrecede_none {a b : String} (h : arrayIndex? b = none) : mayPrecede a b = true := by
  simp only [mayPrecede, h]

theorem none_of_mayPrecede {a b : String} (ha : arrayIndex? a = none)
    (h : mayPrecede a b = true) : arrayIndex? b = none := by
  cases hb : arrayIndex? b with
  | none => rfl
  | some n =>
      simp only [mayPrecede, ha, hb] at h
      cases h

namespace Json

mutual
/-- The keys of every object in a value, the value itself included, are as required. -/
def Everywhere (P : List String → Prop) : Json → Prop
  | .arr xs => EverywhereList P xs
  | .obj fs => P (fs.map Prod.fst) ∧ EverywhereFields P fs
  | _ => True

def EverywhereList (P : List String → Prop) : List Json → Prop
  | [] => True
  | x :: xs => Everywhere P x ∧ EverywhereList P xs

def EverywhereFields (P : List String → Prop) : List (String × Json) → Prop
  | [] => True
  | (_, v) :: fs => Everywhere P v ∧ EverywhereFields P fs
end

variable {P : List String → Prop}

theorem everywhere_arr {xs : List Json} :
    Everywhere P (.arr xs) ↔ ∀ x ∈ xs, Everywhere P x := by
  rw [Everywhere]
  induction xs with
  | nil => simp [EverywhereList]
  | cons x xs ih => simp only [EverywhereList, ih, List.forall_mem_cons]

theorem everywhere_obj {fs : List (String × Json)} :
    Everywhere P (.obj fs) ↔ P (fs.map Prod.fst) ∧ ∀ f ∈ fs, Everywhere P f.2 := by
  rw [Everywhere]
  refine and_congr .rfl ?_
  induction fs with
  | nil => simp [EverywhereFields]
  | cons f fs ih =>
      obtain ⟨k, v⟩ := f
      simp only [EverywhereFields, ih, List.forall_mem_cons]

structure ListedKeys (keys : List String) : Prop where
  nodup : keys.Nodup
  order : keys.Pairwise fun a b => mayPrecede a b = true

def Listed (v : Json) : Prop :=
  Everywhere ListedKeys v

def SeparatedKeys (le : String → String → Bool) (keys : List String) : Prop :=
  ∀ a ∈ keys, ∀ b ∈ keys, arrayIndex? a = none → arrayIndex? b = none →
    le a b = true → le b a = true → a = b

def Separated (le : String → String → Bool) (v : Json) : Prop :=
  Everywhere (SeparatedKeys le) v

mutual
def decEverywhere (P : List String → Prop) [DecidablePred P] :
    (v : Json) → Decidable (Everywhere P v)
  | .null | .bool _ | .num _ | .str _ => isTrue True.intro
  | .arr xs => decEverywhereList P xs
  | .obj fs =>
      have := decEverywhereFields P fs
      inferInstanceAs (Decidable (P (fs.map Prod.fst) ∧ EverywhereFields P fs))

def decEverywhereList (P : List String → Prop) [DecidablePred P] :
    (xs : List Json) → Decidable (EverywhereList P xs)
  | [] => isTrue True.intro
  | x :: xs =>
      have := decEverywhere P x
      have := decEverywhereList P xs
      inferInstanceAs (Decidable (Everywhere P x ∧ EverywhereList P xs))

def decEverywhereFields (P : List String → Prop) [DecidablePred P] :
    (fs : List (String × Json)) → Decidable (EverywhereFields P fs)
  | [] => isTrue True.intro
  | (_, v) :: fs =>
      have := decEverywhere P v
      have := decEverywhereFields P fs
      inferInstanceAs (Decidable (Everywhere P v ∧ EverywhereFields P fs))
end

instance : DecidablePred ListedKeys := fun keys =>
  decidable_of_iff (keys.Nodup ∧ keys.Pairwise fun a b => mayPrecede a b = true)
    ⟨fun h => ⟨h.1, h.2⟩, fun h => ⟨h.nodup, h.order⟩⟩

instance (le : String → String → Bool) : DecidablePred (SeparatedKeys le) := fun keys =>
  inferInstanceAs (Decidable (∀ a ∈ keys, ∀ b ∈ keys, arrayIndex? a = none →
    arrayIndex? b = none → le a b = true → le b a = true → a = b))

instance : DecidablePred Listed := decEverywhere ListedKeys

instance (le : String → String → Bool) : DecidablePred (Separated le) :=
  decEverywhere (SeparatedKeys le)

theorem equiv_refl (v : Json) : Equiv v v := by
  induction v using Json.induct with
  | null | bool | num | str => rfl
  | arr xs ih => exact ⟨xs, rfl, equivList_iff.mpr (List.forall₂_same.mpr ih)⟩
  | obj fs ih =>
      refine ⟨fs, rfl, equivFields_iff.mpr ⟨fs, .refl _, List.forall₂_same.mpr ?_⟩⟩
      intro f hf
      exact ⟨rfl, ih f hf⟩

theorem forall₂_flip {α : Type} {R : α → α → Prop} {xs ys : List α} (h : List.Forall₂ R xs ys)
    (hflip : ∀ x ∈ xs, ∀ y, R x y → R y x) : List.Forall₂ R ys xs := by
  induction h with
  | nil => exact .nil
  | cons hxy _ ih =>
      exact .cons (hflip _ List.mem_cons_self _ hxy)
        (ih fun x hx => hflip x (List.mem_cons_of_mem _ hx))

theorem equiv_symm {v w : Json} (h : Equiv v w) : Equiv w v := by
  induction v using Json.induct generalizing w with
  | null | bool | num | str =>
      simp only [Equiv] at h
      rw [h]
      rfl
  | arr xs ih =>
      obtain ⟨ys, rfl, hxs⟩ := h
      exact ⟨xs, rfl, equivList_iff.mpr (forall₂_flip (equivList_iff.mp hxs) fun x hx y => ih x hx)⟩
  | obj fs ih =>
      obtain ⟨gs, rfl, hfs⟩ := h
      obtain ⟨gs', hperm, hmatch⟩ := equivFields_iff.mp hfs
      have hback : List.Forall₂ MemberEquiv gs' fs :=
        forall₂_flip hmatch fun f hf g h => ⟨h.1.symm, ih f hf h.2⟩
      obtain ⟨fs', hfs', hperm'⟩ := List.perm_comp_forall₂ hperm.symm hback
      exact ⟨fs, rfl, equivFields_iff.mpr ⟨fs', hperm', hfs'⟩⟩

theorem forall₂_compose {α : Type} {R : α → α → Prop} {xs ys zs : List α}
    (h : List.Forall₂ R xs ys) (h' : List.Forall₂ R ys zs)
    (htrans : ∀ x ∈ xs, ∀ y z, R x y → R y z → R x z) : List.Forall₂ R xs zs := by
  induction h generalizing zs with
  | nil => exact h'
  | cons hxy _ ih =>
      obtain _ | ⟨hyz, hrest⟩ := h'
      exact .cons (htrans _ List.mem_cons_self _ _ hxy hyz)
        (ih hrest fun x hx => htrans x (List.mem_cons_of_mem _ hx))

theorem equiv_trans {u v w : Json} (h : Equiv u v) (h' : Equiv v w) : Equiv u w := by
  induction u using Json.induct generalizing v w with
  | null | bool | num | str =>
      simp only [Equiv] at h
      rw [h] at h'
      exact h'
  | arr xs ih =>
      obtain ⟨ys, rfl, hxs⟩ := h
      obtain ⟨zs, rfl, hys⟩ := h'
      exact ⟨zs, rfl, equivList_iff.mpr (forall₂_compose (equivList_iff.mp hxs)
        (equivList_iff.mp hys) fun x hx y z hxy hyz => ih x hx hxy hyz)⟩
  | obj fs ih =>
      obtain ⟨gs, rfl, hfs⟩ := h
      obtain ⟨hs, rfl, hgs⟩ := h'
      obtain ⟨gs', hperm, hmatch⟩ := equivFields_iff.mp hfs
      obtain ⟨hs', hperm', hmatch'⟩ := equivFields_iff.mp hgs
      obtain ⟨ms, hms, hperm''⟩ := List.perm_comp_forall₂ hperm hmatch'
      refine ⟨hs, rfl, equivFields_iff.mpr ⟨ms, hperm''.trans hperm', ?_⟩⟩
      exact forall₂_compose hmatch hms fun f hf g k h h' => ⟨h.1.trans h'.1, ih f hf h.2 h'.2⟩

/-- Equal values under one key make equal objects. -/
theorem equiv_member {l r : List (String × Json)} {k : String} {x y : Json} (h : Equiv x y) :
    Equiv (.obj (l ++ (k, x) :: r)) (.obj (l ++ (k, y) :: r)) := by
  have hsame : ∀ gs : List (String × Json), List.Forall₂ MemberEquiv gs gs :=
    fun gs => List.forall₂_same.mpr fun g _ => ⟨rfl, equiv_refl g.2⟩
  exact ⟨_, rfl, equivFields_iff.mpr ⟨_, .refl _,
    List.rel_append (hsame l) (List.Forall₂.cons ⟨rfl, h⟩ (hsame r))⟩⟩

theorem equiv_item {l r : List Json} {x y : Json} (h : Equiv x y) :
    Equiv (.arr (l ++ x :: r)) (.arr (l ++ y :: r)) := by
  have hsame : ∀ zs : List Json, List.Forall₂ Equiv zs zs :=
    fun zs => List.forall₂_same.mpr fun z _ => equiv_refl z
  exact ⟨_, rfl, equivList_iff.mpr
    (List.rel_append (hsame l) (List.Forall₂.cons h (hsame r)))⟩

theorem equiv_perm {fs gs : List (String × Json)} (h : fs.Perm gs) :
    Equiv (.obj fs) (.obj gs) :=
  ⟨gs, rfl, equivFields_iff.mpr
    ⟨fs, h, List.forall₂_same.mpr fun f _ => ⟨rfl, equiv_refl f.2⟩⟩⟩

end Json

variable {le : String → String → Bool}

/-- Members in sorted order, with members whose keys are equated as they were listed. -/
def Settled (le : String → String → Bool) {α : Type} (f g : String × α) : Prop :=
  le f.1 g.1 = true ∧ (le g.1 f.1 = true → mayPrecede f.1 g.1 = true)

theorem settled_insert (hle : TotalPreorder le) {α : Type} {f : String × α}
    {ms : List (String × α)} (hms : ms.Pairwise (Settled le))
    (hfirst : ∀ g ∈ ms, mayPrecede f.1 g.1 = true) :
    (ms.orderedInsert (fun a b => le a.1 b.1 = true) f).Pairwise (Settled le) := by
  induction ms with
  | nil => exact List.pairwise_singleton _ _
  | cons g ms ih =>
      rw [List.pairwise_cons] at hms
      rw [List.orderedInsert_cons]
      split_ifs with hfg
      · refine List.pairwise_cons.mpr ⟨?_, List.pairwise_cons.mpr hms⟩
        intro h hh
        refine ⟨?_, fun _ => hfirst h hh⟩
        rcases List.mem_cons.mp hh with rfl | hh
        · exact hfg
        · exact hle.trans hfg (hms.1 h hh).1
      · refine List.pairwise_cons.mpr ⟨?_, ih hms.2 fun h hh => hfirst h (List.mem_cons_of_mem _ hh)⟩
        intro h hh
        rcases (List.mem_orderedInsert _).mp hh with rfl | hh
        · exact ⟨(hle.total _ _).resolve_left hfg, fun hback => absurd hback hfg⟩
        · exact hms.1 h hh

theorem sortMembers_settled (hle : TotalPreorder le) {α : Type} {ms : List (String × α)}
    (horder : (ms.map Prod.fst).Pairwise fun a b => mayPrecede a b = true) :
    (sortMembers le ms).Pairwise (Settled le) := by
  induction ms with
  | nil => exact List.Pairwise.nil
  | cons f ms ih =>
      rw [List.map_cons, List.pairwise_cons] at horder
      refine settled_insert hle (ih horder.2) ?_
      intro g hg
      have hmem : g ∈ ms := (sortMembers_perm le ms).subset hg
      exact horder.1 g.1 (List.mem_map_of_mem hmem)

theorem mem_keys {α : Type} {f : String × α} {ms : List (String × α)} (h : f ∈ ms) :
    f.1 ∈ ms.map Prod.fst :=
  List.mem_map_of_mem h

/-- Members with one key are one member. -/
theorem member_eq {α : Type} {ms : List (String × α)} (once : (ms.map Prod.fst).Nodup)
    {f g : String × α} (hf : f ∈ ms) (hg : g ∈ ms) (h : f.1 = g.1) : f = g := by
  induction ms with
  | nil => cases hf
  | cons m ms ih =>
      rw [List.map_cons, List.nodup_cons] at once
      rcases List.mem_cons.mp hf with hfm | hf' <;> rcases List.mem_cons.mp hg with hgm | hg'
      · rw [hfm, hgm]
      · rw [hfm] at h
        exact absurd (h ▸ mem_keys hg') once.1
      · rw [hgm] at h
        exact absurd (h ▸ mem_keys hf') once.1
      · exact ih once.2 hf' hg'

/-- Sorting does not depend on the order of insertion. -/
theorem sortMembers_eq_of_perm (hle : TotalPreorder le) {α : Type} {ms ns : List (String × α)}
    (hperm : ms.Perm ns) (hms : Json.ListedKeys (ms.map Prod.fst))
    (hns : Json.ListedKeys (ns.map Prod.fst)) (hsep : Json.SeparatedKeys le (ms.map Prod.fst)) :
    sortMembers le ms = sortMembers le ns := by
  refine List.Perm.eq_of_pairwise ?_ (sortMembers_settled hle hms.order)
    (sortMembers_settled hle hns.order)
    ((sortMembers_perm le ms).trans (hperm.trans (sortMembers_perm le ns).symm))
  intro f g hf hg hfg hgf
  have hf : f ∈ ms := (sortMembers_perm le ms).subset hf
  have hg : g ∈ ms := hperm.symm.subset ((sortMembers_perm le ns).subset hg)
  refine member_eq hms.nodup hf hg ?_
  have hforth := hfg.2 hgf.1
  have hback := hgf.2 hfg.1
  cases ha : arrayIndex? f.1 with
  | none => exact hsep _ (mem_keys hf) _ (mem_keys hg) ha (none_of_mayPrecede ha hforth) hfg.1 hgf.1
  | some m =>
      cases hb : arrayIndex? g.1 with
      | none =>
          simp only [mayPrecede, ha, hb] at hback
          cases hback
      | some n =>
          simp only [mayPrecede, ha, hb, decide_eq_true_eq] at hforth hback
          omega

theorem keys_memberTexts (fs : List (String × Json)) :
    (memberTexts le fs).map Prod.fst = fs.map Prod.fst := by
  rw [memberTexts_eq, List.map_map]
  rfl

/-- Values that are equal up to the order of members have one text. -/
theorem stableText_of_equiv (hle : TotalPreorder le) {v : Json} :
    ∀ {w : Json}, v.Listed → w.Listed → v.Separated le → Json.Equiv v w →
      stableText le v = stableText le w := by
  induction v using Json.induct with
  | null | bool | num | str =>
      intro w _ _ _ h
      simp only [Json.Equiv] at h
      rw [h]
  | arr xs ih =>
      intro w hv hw hsep h
      obtain ⟨ys, rfl, hxs⟩ := h
      rw [Json.equivList_iff] at hxs
      rw [Json.Listed, Json.everywhere_arr] at hv hw
      rw [Json.Separated, Json.everywhere_arr] at hsep
      have htexts : xs.map (stableText le) = ys.map (stableText le) := by
        induction hxs with
        | nil => rfl
        | cons hxy hrest ih' =>
            rw [List.forall_mem_cons] at hv hw hsep
            rw [List.map_cons, List.map_cons,
              ih _ List.mem_cons_self hv.1 hw.1 hsep.1 hxy,
              ih' (fun x hx => ih x (List.mem_cons_of_mem _ hx)) hv.2 hsep.2 hw.2]
      simp only [stableText, stableTexts_eq, htexts]
  | obj fs ih =>
      intro w hv hw hsep h
      obtain ⟨gs, rfl, hfs⟩ := h
      obtain ⟨gs', hperm, hmatch⟩ := Json.equivFields_iff.mp hfs
      rw [Json.Listed, Json.everywhere_obj] at hv hw
      rw [Json.Separated, Json.everywhere_obj] at hsep
      have hw' : ∀ g ∈ gs', g.2.Listed := fun g hg => hw.2 g (hperm.subset hg)
      have htexts : memberTexts le fs = memberTexts le gs' := by
        have hvalues := hsep.2
        have hlisted := hv.2
        clear hsep hv hfs hperm hw
        induction hmatch with
        | nil => rfl
        | @cons f g fs gs' hfg hrest ih' =>
            rw [List.forall_mem_cons] at hvalues hlisted hw'
            have hkey : f.1 = g.1 := hfg.1
            have hvalue := ih _ List.mem_cons_self hlisted.1 hw'.1 hvalues.1 hfg.2
            have htail := ih' (fun x hx => ih x (List.mem_cons_of_mem _ hx)) hw'.2 hvalues.2
              hlisted.2
            simp only [memberTexts_eq] at htail ⊢
            rw [List.map_cons, List.map_cons, htail, hkey, hvalue]
      have hpermTexts : (memberTexts le fs).Perm (memberTexts le gs) := by
        rw [htexts, memberTexts_eq, memberTexts_eq]
        exact hperm.map _
      have hsorted := sortMembers_eq_of_perm hle hpermTexts
        (by rw [keys_memberTexts]; exact hv.1) (by rw [keys_memberTexts]; exact hw.1)
        (by rw [keys_memberTexts]; exact hsep.1)
      simp only [stableText, hsorted]

theorem map_eq_of_forall₂ {α β : Type} {F : α → β} {xs ys : List α}
    (h : List.Forall₂ (fun x y => F x = F y) xs ys) : xs.map F = ys.map F := by
  induction h with
  | nil => rfl
  | cons hxy _ ih => rw [List.map_cons, List.map_cons, hxy, ih]

theorem text_agree (x : Json) {y : Json} {a b : List Char} (ha : Closed a) (hb : Closed b)
    (h : stableText le x ++ a = stableText le y ++ b) :
    stableText le x = stableText le y ∧ a = b := by
  obtain ⟨-, rfl⟩ := stableText_agree le x ha hb h
  exact ⟨List.append_cancel_right h, rfl⟩

theorem texts_of_arr {xs ys : List Json}
    (h : stableText le (.arr xs) = stableText le (.arr ys)) :
    xs.map (stableText le) = ys.map (stableText le) := by
  have hjoin : commaJoin (xs.map (stableText le)) ++ ']' :: [] =
      commaJoin (ys.map (stableText le)) ++ ']' :: [] := by
    simpa only [stableText, stableTexts_eq, List.cons.injEq, true_and] using h
  exact map_eq_of_forall₂ (commaJoin_agree (by decide) (by decide) (stableText_ne_close le)
    (stableText_ne_close le) (fun x _ y a b ha hb hxy => text_agree x ha hb hxy) hjoin).1

theorem texts_of_obj {fs gs : List (String × Json)}
    (h : stableText le (.obj fs) = stableText le (.obj gs)) :
    sortMembers le (memberTexts le fs) = sortMembers le (memberTexts le gs) := by
  have hjoin : commaJoin ((sortMembers le fs).map fun f => memberText (f.1, stableText le f.2)) ++
      '\x7d' :: [] =
      commaJoin ((sortMembers le gs).map fun f => memberText (f.1, stableText le f.2)) ++
      '\x7d' :: [] := by
    simpa only [stableText, sorted_memberTexts, List.cons.injEq, true_and] using h
  rw [sortMembers_memberTexts, sortMembers_memberTexts]
  refine map_eq_of_forall₂ (commaJoin_agree (by decide) (by decide)
    (fun f => memberText_ne_close _) (fun f => memberText_ne_close _)
    (fun f _ g a b ha hb hfg => ?_) hjoin).1
  simp only [memberText, List.append_assoc, List.cons_append] at hfg
  obtain ⟨hkey, hrest⟩ := quote_agree hfg
  obtain ⟨htext, hend⟩ := text_agree f.2 ha hb (List.cons.inj hrest).2
  exact ⟨by rw [hkey, htext], hend⟩

/-- Objects with one text have one text under each key. -/
theorem text_of_member {fs gs : List (String × Json)} {k : String} {x y : Json}
    (h : stableText le (.obj fs) = stableText le (.obj gs)) (once : (gs.map Prod.fst).Nodup)
    (hx : (k, x) ∈ fs) (hy : (k, y) ∈ gs) : stableText le x = stableText le y := by
  have hmem : ∀ {fs : List (String × Json)} {z : Json}, (k, z) ∈ fs →
      (k, stableText le z) ∈ memberTexts le fs := by
    intro fs z hz
    rw [memberTexts_eq]
    exact List.mem_map.mpr ⟨(k, z), hz, rfl⟩
  have hold := (sortMembers_perm le _).symm.subset (hmem hx)
  rw [texts_of_obj h] at hold
  have hpair := member_eq (by rw [keys_memberTexts]; exact once)
    ((sortMembers_perm le _).subset hold) (hmem hy) rfl
  exact congrArg Prod.snd hpair

theorem not_both_orders {α : Type} {a b : α} {l : List α} (once : l.Nodup) (hne : a ≠ b)
    (hab : [a, b].Sublist l) (hba : [b, a].Sublist l) : False := by
  induction l with
  | nil => cases hab
  | cons c l ih =>
      rw [List.nodup_cons] at once
      cases hab with
      | cons _ hab =>
          cases hba with
          | cons _ hba => exact ih once.2 hab hba
          | cons_cons _ hba => exact once.1 (hab.subset (by simp))
      | cons_cons _ hab =>
          cases hba with
          | cons _ hba => exact once.1 (hba.subset (by simp))
          | cons_cons _ hba => exact hne rfl

/-- Members that the comparison equates keep the order in which they are listed. -/
theorem sortMembers_keeps {α : Type} {l m r : List (String × α)} {f g : String × α}
    (h : le f.1 g.1 = true) : [f, g].Sublist (sortMembers le (l ++ f :: (m ++ g :: r))) := by
  refine List.pair_sublist_insertionSort h ?_
  refine List.Sublist.trans ?_ (List.sublist_append_right l _)
  refine List.Sublist.cons_cons f ?_
  exact (List.singleton_sublist.mpr List.mem_cons_self).trans (List.sublist_append_right m _)

/-- The object with two members exchanged. -/
theorem swap_perm {α : Type} (l m r : List α) (f g : α) :
    (l ++ f :: (m ++ g :: r)).Perm (l ++ g :: (m ++ f :: r)) := by
  have hfirst : (f :: (m ++ g :: r)).Perm (f :: g :: (m ++ r)) := List.perm_middle.cons f
  have hlast : (g :: f :: (m ++ r)).Perm (g :: (m ++ f :: r)) := List.perm_middle.symm.cons g
  exact List.Perm.append_left l (hfirst.trans ((List.Perm.swap g f _).trans hlast))

theorem listed_swap {l m r : List String} {a b : String} (ha : arrayIndex? a = none)
    (h : Json.ListedKeys (l ++ a :: (m ++ b :: r))) :
    Json.ListedKeys (l ++ b :: (m ++ a :: r)) := by
  refine ⟨(swap_perm l m r a b).nodup h.nodup, ?_⟩
  have horder := h.order
  rw [List.pairwise_append, List.pairwise_cons] at horder
  obtain ⟨hl, ⟨hfirst, -⟩, hcross⟩ := horder
  -- Every key after one that is no array index is none either.
  have hafter : ∀ c ∈ b :: (m ++ a :: r), arrayIndex? c = none := by
    intro c hc
    have hmem := (swap_perm [] m r a b).symm.subset hc
    rcases List.mem_cons.mp hmem with rfl | hrest
    · exact ha
    · exact none_of_mayPrecede ha (hfirst c hrest)
  rw [List.pairwise_append]
  refine ⟨hl, List.pairwise_of_forall_mem_list ?_, ?_⟩
  · intro c _ d hd
    exact mayPrecede_none (hafter d hd)
  · intro c _ d hd
    exact mayPrecede_none (hafter d hd)

/-- Two members whose keys are equated may be listed in either order, which the text shows. -/
theorem exchanged {l m r : List (String × Json)} {f g : String × Json}
    (hlisted : Json.Listed (.obj (l ++ f :: (m ++ g :: r)))) (hne : f.1 ≠ g.1)
    (hf : arrayIndex? f.1 = none) (hfg : le f.1 g.1 = true) (hgf : le g.1 f.1 = true) :
    ∃ w, w.Listed ∧ Json.Equiv (.obj (l ++ f :: (m ++ g :: r))) w ∧
      stableText le (.obj (l ++ f :: (m ++ g :: r))) ≠ stableText le w := by
  have hperm := swap_perm l m r f g
  rw [Json.Listed, Json.everywhere_obj] at hlisted
  refine ⟨.obj (l ++ g :: (m ++ f :: r)), ?_, Json.equiv_perm hperm, ?_⟩
  · rw [Json.Listed, Json.everywhere_obj]
    refine ⟨?_, fun x hx => hlisted.2 x (hperm.symm.subset hx)⟩
    have hkeys := hlisted.1
    simp only [List.map_append, List.map_cons] at hkeys ⊢
    exact listed_swap hf hkeys
  · intro htext
    have hsorted := texts_of_obj htext
    simp only [memberTexts_eq, List.map_append, List.map_cons] at hsorted
    have hforth := sortMembers_keeps (l := l.map fun f => (f.1, stableText le f.2))
      (m := m.map fun f => (f.1, stableText le f.2)) (r := r.map fun f => (f.1, stableText le f.2))
      (f := (f.1, stableText le f.2)) (g := (g.1, stableText le g.2)) hfg
    have hback := sortMembers_keeps (l := l.map fun f => (f.1, stableText le f.2))
      (m := m.map fun f => (f.1, stableText le f.2)) (r := r.map fun f => (f.1, stableText le f.2))
      (f := (g.1, stableText le g.2)) (g := (f.1, stableText le f.2)) hgf
    rw [← hsorted] at hback
    have hpair : (f.1, stableText le f.2) ≠ (g.1, stableText le g.2) := by
      intro h
      exact hne (Prod.mk.inj h).1
    refine not_both_orders ?_ hpair hforth hback
    have honce : ((l ++ f :: (m ++ g :: r)).map fun f => (f.1, stableText le f.2)).Nodup := by
      refine List.Nodup.of_map Prod.fst ?_
      rw [List.map_map]
      exact hlisted.1.nodup
    simp only [List.map_append, List.map_cons] at honce
    exact ((sortMembers_perm le _).symm.nodup honce)

/-- The text of an array shows the text of each item. -/
theorem replaced {l r : List Json} {x y : Json} (hlisted : Json.Listed (.arr (l ++ x :: r)))
    (hy : y.Listed) (hxy : Json.Equiv x y) (htext : stableText le x ≠ stableText le y) :
    ∃ w, w.Listed ∧ Json.Equiv (.arr (l ++ x :: r)) w ∧
      stableText le (.arr (l ++ x :: r)) ≠ stableText le w := by
  rw [Json.Listed, Json.everywhere_arr] at hlisted
  refine ⟨.arr (l ++ y :: r), ?_, ?_, ?_⟩
  · rw [Json.Listed, Json.everywhere_arr]
    intro z hz
    rcases List.mem_append.mp hz with hz | hz
    · exact hlisted z (List.mem_append_left _ hz)
    · rcases List.mem_cons.mp hz with rfl | hz
      · exact hy
      · exact hlisted z (List.mem_append_right _ (List.mem_cons_of_mem _ hz))
  · exact Json.equiv_item hxy
  · intro heq
    have htexts := texts_of_arr heq
    rw [List.map_append, List.map_append, List.append_cancel_left_eq, List.map_cons,
      List.map_cons] at htexts
    exact htext (List.cons.inj htexts).1

/-- The text of an object shows the text of each member. -/
theorem revalued {l r : List (String × Json)} {k : String} {x y : Json}
    (hlisted : Json.Listed (.obj (l ++ (k, x) :: r))) (hy : y.Listed) (hxy : Json.Equiv x y)
    (htext : stableText le x ≠ stableText le y) :
    ∃ w, w.Listed ∧ Json.Equiv (.obj (l ++ (k, x) :: r)) w ∧
      stableText le (.obj (l ++ (k, x) :: r)) ≠ stableText le w := by
  rw [Json.Listed, Json.everywhere_obj] at hlisted
  have hkeys : (l ++ (k, y) :: r).map Prod.fst = (l ++ (k, x) :: r).map Prod.fst := by
    simp only [List.map_append, List.map_cons]
  refine ⟨.obj (l ++ (k, y) :: r), ?_, ?_, ?_⟩
  · rw [Json.Listed, Json.everywhere_obj, hkeys]
    refine ⟨hlisted.1, fun g hg => ?_⟩
    rcases List.mem_append.mp hg with hg | hg
    · exact hlisted.2 g (List.mem_append_left _ hg)
    · rcases List.mem_cons.mp hg with rfl | hg
      · exact hy
      · exact hlisted.2 g (List.mem_append_right _ (List.mem_cons_of_mem _ hg))
  · exact Json.equiv_member hxy
  · intro heq
    have once : ((l ++ (k, y) :: r).map Prod.fst).Nodup := by
      rw [hkeys]
      exact hlisted.1.nodup
    exact htext (text_of_member heq once (x := x) (y := y) (k := k) (by simp) (by simp))

/-- A value in which the comparison equates two keys has a text that depends on their order. -/
theorem reordered_of_not_separated {v : Json} (hlisted : v.Listed) (h : ¬v.Separated le) :
    ∃ w, w.Listed ∧ Json.Equiv v w ∧ stableText le v ≠ stableText le w := by
  induction v using Json.induct with
  | null | bool | num | str => exact absurd True.intro h
  | arr xs ih =>
      rw [Json.Separated, Json.everywhere_arr] at h
      simp only [not_forall] at h
      obtain ⟨x, hx, hnot⟩ := h
      obtain ⟨y, hy, hxy, htext⟩ := ih x hx (Json.everywhere_arr.mp hlisted x hx) hnot
      obtain ⟨l, r, rfl⟩ := List.append_of_mem hx
      exact replaced hlisted hy hxy htext
  | obj fs ih =>
      rw [Json.Separated, Json.everywhere_obj, not_and_or] at h
      rcases h with hkeys | hvalues
      · simp only [Json.SeparatedKeys, not_forall] at hkeys
        obtain ⟨a, ha, b, hb, hindexA, hindexB, hab, hba, hne⟩ := hkeys
        obtain ⟨f, hf, rfl⟩ := List.mem_map.mp ha
        obtain ⟨g, hg, rfl⟩ := List.mem_map.mp hb
        obtain ⟨l, r, rfl⟩ := List.append_of_mem hf
        rcases List.mem_append.mp hg with hbefore | hafter
        · obtain ⟨l, m, rfl⟩ := List.append_of_mem hbefore
          rw [List.append_assoc, List.cons_append] at hlisted ⊢
          exact exchanged hlisted (Ne.symm hne) hindexB hba hab
        · rcases List.mem_cons.mp hafter with rfl | hafter
          · exact absurd rfl hne
          · obtain ⟨m, r, rfl⟩ := List.append_of_mem hafter
            exact exchanged hlisted hne hindexA hab hba
      · simp only [not_forall] at hvalues
        obtain ⟨f, hf, hnot⟩ := hvalues
        have hvalue := (Json.everywhere_obj.mp hlisted).2 f hf
        obtain ⟨y, hy, hxy, htext⟩ := ih f hf hvalue hnot
        obtain ⟨l, r, rfl⟩ := List.append_of_mem hf
        exact revalued hlisted hy hxy htext

/-- A comparison that equates no two strings separates all keys. -/
theorem separated_of_antisymm (h : ∀ a b, le a b = true → le b a = true → a = b) (v : Json) :
    v.Separated le := by
  induction v using Json.induct with
  | null | bool | num | str => exact True.intro
  | arr xs ih => exact Json.everywhere_arr.mpr ih
  | obj fs ih => exact Json.everywhere_obj.mpr ⟨fun a _ b _ _ _ => h a b, ih⟩

/-- The texts of a value and of its reorderings are one text exactly when the comparison
separates the keys of every object in it. -/
theorem canonical_iff_separated (hle : TotalPreorder le) {v : Json} (hv : v.Listed) :
    (∀ w : Json, w.Listed → Json.Equiv v w → stableText le v = stableText le w) ↔
      v.Separated le := by
  constructor
  · intro h
    by_contra hnot
    obtain ⟨w, hw, hequiv, htext⟩ := reordered_of_not_separated hv hnot
    exact htext (h w hw hequiv)
  · intro hsep w hw hequiv
    exact stableText_of_equiv hle hv hw hsep hequiv

end Text
