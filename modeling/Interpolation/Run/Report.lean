import Interpolation.Run.Visit
import Interpolation.Store.Source

/-!
# A run over some paths

* `World.visitAll` — visit sources one after the other, until one visit stops the run;
* `Report` — the visits of a run, and what made it fail, if anything;
* `World.run` — collect the sources under some paths, and visit them.
-/

namespace Interpolation

namespace World

/-- Visit some sources. -/
def visitAll (w : World) (options : Options) (asking : Bool) : List Text → List Visit × World
  | [] => ([], w)
  | path :: paths =>
    let (fate, w) := w.visit options asking path
    if fate.stops then ([⟨path, fate⟩], w)
    else
      let (visits, w) := w.visitAll options (asking && !fate.settlesAll) paths
      (⟨path, fate⟩ :: visits, w)

end World

/-- What happened in a run. -/
structure Report where
  visits : List Visit
  failure : Option Failure
  deriving Repr

namespace Report

/-- The log of a run. -/
def log (r : Report) : List Event := r.visits.flatMap Visit.events

/-- The totals of a run. -/
def summary (r : Report) : Summary := r.visits.foldl (fun s v => s.add v.summary) {}

/-- Whether a question was asked after the last line of input. -/
def wantsInput (r : Report) : Bool := r.visits.any fun v => v.fate.talk?.any (·.ending = .inputEnded)

end Report

/-- Visit all sources under some paths. If one of the paths leads nowhere, nothing is visited at all. -/
def World.run (w : World) (options : Options) (paths : List Text) : Report × World :=
  match w.store.sources paths with
  | .error failure => (⟨[], some failure⟩, w)
  | .ok sources =>
    let (visits, w) := w.visitAll options (options.interactive && options.write) sources
    (⟨visits, visits.findSome? (·.fate.failure?)⟩, w)

end Interpolation
