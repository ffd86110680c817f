import ControlPlane.Feed
import ControlPlane.Proofs.Dict

/-! # What is news

A change is news if its version is above all those of its formation that were passed on before.
`newsAfter` judges a list of changes by the list of those passed on; a subscription judges them by
the last version of each formation, which comes to the same.
-/
namespace ControlPlane

def Change.IsNewTo (past : List Change) (c : Change) : Prop :=
  ∀ d ∈ past, d.key = c.key → d.version < c.version

instance (past : List Change) (c : Change) : Decidable (c.IsNewTo past) :=
  inferInstanceAs (Decidable (∀ d ∈ past, d.key = c.key → d.version < c.version))

/-- Those of a list of changes that are news, each judged by `past` and what is passed on before
it. -/
def newsAfter (past : List Change) : List Change → List Change
  | [] => []
  | c :: cs => if c.IsNewTo past then c :: newsAfter (past ++ [c]) cs else newsAfter past cs

/-- Changes of one formation come in order of their versions, none twice. -/
def Increasing (cs : List Change) : Prop :=
  cs.Pairwise (fun c d => c.key = d.key → c.version < d.version)

/-- The last change of a formation in a list. -/
def lastOf (k : String) (cs : List Change) : Option Change := (cs.filter (·.key = k)).getLast?

@[simp] theorem newsAfter_nil (past : List Change) : newsAfter past [] = [] := rfl

theorem newsAfter_append (past cs ds : List Change) :
    newsAfter past (cs ++ ds) = newsAfter past cs ++ newsAfter (past ++ newsAfter past cs) ds := by
  induction cs generalizing past with
  | nil => simp
  | cons c cs ih =>
    simp only [List.cons_append, newsAfter]
    split
    · rw [ih, List.cons_append, List.append_assoc, List.singleton_append]
    · exact ih past

theorem newsAfter_sublist (past cs : List Change) : (newsAfter past cs).Sublist cs := by
  induction cs generalizing past with
  | nil => exact .slnil
  | cons c cs ih =>
    rw [newsAfter]
    split
    · exact (ih _).cons_cons c
    · exact (ih _).cons c

/-- What comes first of the news is the news of what comes first. -/
theorem exists_prefix_newsAfter {past cs front : List Change} (h : front <+: newsAfter past cs) :
    ∃ ds, ds <+: cs ∧ front = newsAfter past ds := by
  induction cs generalizing past front with
  | nil => exact ⟨[], List.prefix_rfl, List.prefix_nil.1 h⟩
  | cons c cs ih =>
    rw [newsAfter] at h
    split at h
    · next hnew =>
      cases front with
      | nil => exact ⟨[], List.nil_prefix, rfl⟩
      | cons d front =>
        obtain ⟨rfl, h⟩ := List.cons_prefix_cons.1 h
        obtain ⟨ds, hds, rfl⟩ := ih h
        exact ⟨d :: ds, List.cons_prefix_cons.2 ⟨rfl, hds⟩, by rw [newsAfter, if_pos hnew]⟩
    · next hnew =>
      obtain ⟨ds, hds, rfl⟩ := ih h
      exact ⟨c :: ds, List.cons_prefix_cons.2 ⟨rfl, hds⟩, by rw [newsAfter, if_neg hnew]⟩

theorem Increasing.append_newsAfter {past : List Change} (h : Increasing past) (cs : List Change) :
    Increasing (past ++ newsAfter past cs) := by
  induction cs generalizing past with
  | nil => simpa using h
  | cons c cs ih =>
    rw [newsAfter]
    split
    · next hnew =>
      have hc : Increasing (past ++ [c]) := by
        refine List.pairwise_append.2 ⟨h, List.pairwise_singleton _ _, fun d hd e he => ?_⟩
        rw [List.mem_singleton.1 he]
        exact hnew d hd
      simpa using ih hc
    · exact ih h

theorem increasing_newsAfter (cs : List Change) : Increasing (newsAfter [] cs) := by
  have hnil : Increasing [] := .nil
  exact hnil.append_newsAfter cs

/-- Whatever is not passed on is of no higher version than something that was. -/
theorem exists_le_of_mem (past : List Change) {cs : List Change} {c : Change} (h : c ∈ cs) :
    ∃ d ∈ past ++ newsAfter past cs, d.key = c.key ∧ c.version ≤ d.version := by
  induction cs generalizing past with
  | nil => cases h
  | cons b cs ih =>
    rw [newsAfter]
    obtain rfl | h := List.mem_cons.1 h
    · split
      · exact ⟨c, by simp, rfl, UInt64.le_refl _⟩
      · next hnew =>
        simp only [Change.IsNewTo, Classical.not_forall] at hnew
        obtain ⟨d, hd, hk, hle⟩ := hnew
        exact ⟨d, by simp [hd], hk, UInt64.not_lt.1 hle⟩
    · split
      · simpa using ih (past ++ [b]) h
      · exact ih past h

private theorem getLast?_of_max {α : Type} {r : α → α → Prop} {l : List α} (hl : l.Pairwise r)
    {x : α} (hx : x ∈ l) (hmax : ∀ y ∈ l, ¬ r x y) : l.getLast? = some x := by
  obtain ⟨front, back, rfl⟩ := List.append_of_mem hx
  cases back with
  | nil => simp
  | cons y back =>
    have hxy : r x y := (List.pairwise_cons.1 (List.pairwise_append.1 hl).2.1).1 y (by simp)
    exact absurd hxy (hmax y (by simp))

theorem Increasing.lastOf_eq {cs : List Change} (h : Increasing cs) {c : Change} (hc : c ∈ cs)
    (hmax : ∀ d ∈ cs, d.key = c.key → d.version ≤ c.version) : lastOf c.key cs = some c := by
  have hfilter : (cs.filter (·.key = c.key)).Pairwise (fun d e => d.version < e.version) := by
    refine (List.Pairwise.filter _ h).imp_of_mem fun hd he hlt => hlt ?_
    rw [of_decide_eq_true (List.mem_filter.1 hd).2, of_decide_eq_true (List.mem_filter.1 he).2]
  refine getLast?_of_max hfilter (by simp [hc]) fun d hd => ?_
  obtain ⟨hd, hk⟩ := List.mem_filter.1 hd
  exact UInt64.not_lt.2 (hmax d hd (of_decide_eq_true hk))

/-- The last that is passed on of a formation is of the highest version that came. -/
theorem lastOf_newsAfter {cs : List Change} {c : Change} (hc : c ∈ cs)
    (hmax : ∀ d ∈ cs, d.key = c.key → d.version ≤ c.version) :
    ∃ d ∈ cs, lastOf c.key (newsAfter [] cs) = some d ∧ d.key = c.key ∧ d.version = c.version := by
  obtain ⟨d, hd, hk, hle⟩ := exists_le_of_mem [] hc
  rw [List.nil_append] at hd
  have hmem (e : Change) (he : e ∈ newsAfter [] cs) : e ∈ cs := (newsAfter_sublist [] cs).subset he
  have hversion : d.version = c.version := UInt64.le_antisymm (hmax d (hmem d hd) hk) hle
  refine ⟨d, hmem d hd, ?_, hk, hversion⟩
  rw [← hk]
  refine (increasing_newsAfter cs).lastOf_eq hd fun e he hek => ?_
  rw [hversion]
  exact hmax e (hmem e he) (hek.trans hk)

theorem lastOf_eq_none {k : String} {cs : List Change} (h : ∀ c ∈ cs, c.key ≠ k) :
    lastOf k cs = none := by
  simpa [lastOf] using h

/-- In an overlay of two lists the second decides, where it says anything. -/
theorem lastOf_append (k : String) (cs ds : List Change) :
    lastOf k (cs ++ ds) = (lastOf k ds).or (lastOf k cs) := by
  rw [lastOf, List.filter_append, List.getLast?_append]
  rfl

namespace Subscription

/-- The versions seen are those that were passed on last. -/
def Tracks (seen : Dict UInt64) (past : List Change) : Prop :=
  ∀ c, isNews seen c = true ↔ c.IsNewTo past

theorem tracks_empty : Tracks {} [] := by
  simp [Tracks, isNews, Change.IsNewTo]

theorem Tracks.insert {seen : Dict UInt64} {past : List Change} (h : Tracks seen past) {c : Change}
    (hc : c.IsNewTo past) : Tracks (seen.insert c.key c.version) (past ++ [c]) := by
  intro d
  by_cases hk : c.key = d.key
  · have hnews : isNews (seen.insert c.key c.version) d = true ↔ c.version < d.version := by
      simp [isNews, hk]
    rw [hnews]
    constructor
    · intro hlt e he hek
      obtain he | he := List.mem_append.1 he
      · exact UInt64.lt_trans (hc e he (hek.trans hk.symm)) hlt
      · rwa [List.mem_singleton.1 he]
    · exact fun hnew => hnew c (by simp) hk
  · have hnews : isNews (seen.insert c.key c.version) d = isNews seen d := by
      simp [isNews, Dict.get?_insert, hk]
    rw [hnews, h d]
    constructor
    · intro hnew e he hek
      obtain he | he := List.mem_append.1 he
      · exact hnew e he hek
      · rw [List.mem_singleton.1 he] at hek
        exact absurd hek hk
    · exact fun hnew e he => hnew e (List.mem_append_left _ he)

theorem newsAfter_of_takeNews_eq_none {seen : Dict UInt64} {past cs : List Change}
    (h : Tracks seen past) (hcs : takeNews seen cs = none) : newsAfter past cs = [] := by
  induction cs with
  | nil => rfl
  | cons c cs ih =>
    rw [takeNews] at hcs
    split at hcs
    · cases hcs
    · next hnews =>
      rw [newsAfter, if_neg fun hnew => hnews ((h c).2 hnew)]
      exact ih hcs

theorem newsAfter_of_takeNews_eq_some {seen : Dict UInt64} {past cs rest : List Change} {c : Change}
    (h : Tracks seen past) (hcs : takeNews seen cs = some (c, rest)) :
    c.IsNewTo past ∧ newsAfter past cs = c :: newsAfter (past ++ [c]) rest := by
  induction cs with
  | nil => cases hcs
  | cons b cs ih =>
    rw [takeNews] at hcs
    split at hcs
    · next hnews =>
      cases hcs
      have hnew : c.IsNewTo past := (h c).1 hnews
      exact ⟨hnew, by rw [newsAfter, if_pos hnew]⟩
    · next hnews =>
      rw [newsAfter, if_neg fun hnew => hnews ((h b).2 hnew)]
      exact ih hcs

end Subscription
end ControlPlane
