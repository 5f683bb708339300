import DoorToDoor.Proofs.Planning

/-!
# Labels that are used again

A search that uses the labels of earlier searches finds what it finds with new ones, whatever the
earlier searches were and on whatever networks they ran. So a planner answers each request as if it
were its first one: `planAll_fst_after`.
-/

namespace DoorToDoor

variable {α : Type} [Scalar α]

namespace LeastCost

/-- The labels that searches leave when each uses those of the one before. -/
def labelsAfter (labels : Labels α) (earlier : List (Task α × CandidateSet α)) : Labels α :=
  earlier.foldl (fun labels (task, origins) ↦ (search labels task origins).2) labels

/-- A search starts from blank labels, so what it finds and what it leaves do not depend on the
labels that it is given. -/
theorem searchWith_eq_searchWith (rule : StopRule α) (labels labels' : Labels α) (task : Task α)
    (origins : CandidateSet α) :
    searchWith rule labels task origins = searchWith rule labels' task origins := by
  simp only [searchWith, finalState, Labels.reset_eq_blank]

end LeastCost

namespace Routing.Planner

/-- What an engine finds decides the answer, so two states of an engine that find the same for
every task give the same answer. -/
theorem plan_fst_congr {σ : Type} {p : Planner α σ} {state state' : σ}
    (same : ∀ origins destinations person,
      (p.engine.run state p.network p.setting.costs origins destinations person).1 =
        (p.engine.run state' p.network p.setting.costs origins destinations person).1)
    (r : Request α) : (p.plan state r).1 = (p.plan state' r).1 := by
  rw [plan_fst, plan_fst]
  simp only [same]

/-- When every state of an engine finds the same, each of several requests is answered as if it were
the only one. -/
theorem planAll_fst {σ : Type} {p : Planner α σ}
    (same : ∀ state state' origins destinations person,
      (p.engine.run state p.network p.setting.costs origins destinations person).1 =
        (p.engine.run state' p.network p.setting.costs origins destinations person).1)
    (state fresh : σ) (requests : List (Request α)) :
    (p.planAll state requests).1 = requests.map fun r ↦ (p.plan fresh r).1 := by
  induction requests generalizing state with
  | nil => rfl
  | cons r rest ih =>
    change (p.plan state r).1 :: (p.planAll (p.plan state r).2 rest).1 = _
    rw [ih, plan_fst_congr (same state fresh) r, List.map_cons]

/-- After any searches a search finds and leaves what it does with new labels. A planner that has
answered requests with such labels answers each further one as a new planner does, also when
requests before it fail or have no journey. -/
theorem planAll_fst_after (network : Network α) (lookup : DepartureLookup α)
    (access : AccessModel α) (parameters : Parameters α) (surcharged : Bool)
    (earlier : List (LeastCost.Task α × CandidateSet α)) (served requests : List (Request α)) :
    let used := LeastCost.labelsAfter .empty earlier
    let p := make network lookup access parameters surcharged
    (∀ task origins, LeastCost.search used task origins = LeastCost.search .empty task origins) ∧
      (p.planAll (p.planAll used served).2 requests).1 =
        requests.map fun r ↦ (p.plan .empty r).1 := by
  constructor
  · exact LeastCost.searchWith_eq_searchWith LeastCost.stopAtBest _ _
  · refine planAll_fst (fun labels labels' origins destinations person ↦ ?_) _ _ requests
    exact congrArg Prod.fst (LeastCost.searchWith_eq_searchWith LeastCost.stopAtBest ..)

end Routing.Planner

end DoorToDoor
