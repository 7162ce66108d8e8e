import Sylar.Lib.History

/- `ServletDispatch` of `http/servlet.cc`: which servlet answers a path.

   `m_datas` maps a path to the creator registered for it, `m_globs` is a vector of
   patterns in which a new registration erases the old one and appends itself, and
   `getMatchedServlet` takes the exact path first, then the first pattern that
   `fnmatch` accepts, then the default.

   `run_reads` says that the two containers are what the history of calls leaves in a
   keyed map and a keyed list, and `getMatchedServlet_run` what that means for every
   path. `fnmatch` is a parameter, and so is what an `IServletCreator` other than
   `HoldServletCreator` makes: it may build its servlet anew at each `get`, so it also
   reads the moment of the call. -/
namespace Sylar.Http

open Sylar.Lib

/-- A servlet object: the caller's own, a `FunctionServlet` around a callback, or a
`NotFoundServlet`. -/
inductive Servlet (S C : Type) where
  | user (slt : S)
  | function (cb : C)
  | notFound (name : String)
  deriving DecidableEq, Repr

/-- `IServletCreator`: a `HoldServletCreator`, or a creator of the caller. -/
inductive ServletCreator (S C K : Type) where
  | hold (servlet : Servlet S C)
  | custom (creator : K)
  deriving DecidableEq, Repr

section
variable {S C K W : Type}

/-- `IServletCreator::get`. -/
def ServletCreator.get (make : K → W → Servlet S C) (now : W) : ServletCreator S C K → Servlet S C
  | .hold servlet => servlet
  | .custom creator => make creator now

/-- The members of `ServletDispatch`. -/
structure ServletDispatch (S C K : Type) where
  datas : String → Option (ServletCreator S C K)
  globs : List (String × ServletCreator S C K)
  default : Servlet S C

namespace ServletDispatch

/-- The constructor. -/
def init : ServletDispatch S C K where
  datas := fun _ => none
  globs := []
  default := .notFound "sylar/1.0"

/-- `m_datas[uri] = creator`. -/
def addServletCreator (d : ServletDispatch S C K) (uri : String) (creator : ServletCreator S C K) :
    ServletDispatch S C K :=
  { d with datas := fun u => if u = uri then some creator else d.datas u }

def addServlet (d : ServletDispatch S C K) (uri : String) (slt : Servlet S C) : ServletDispatch S C K :=
  { d with datas := fun u => if u = uri then some (.hold slt) else d.datas u }

/-- The overload of `addServlet` with a callback. -/
def addServletFunction (d : ServletDispatch S C K) (uri : String) (cb : C) : ServletDispatch S C K :=
  { d with datas := fun u => if u = uri then some (.hold (.function cb)) else d.datas u }

/-- The loop that erases the first entry of `m_globs` under `uri` and stops. -/
def eraseGlob (uri : String) : List (String × ServletCreator S C K) → List (String × ServletCreator S C K)
  | [] => []
  | it :: rest => if it.1 = uri then rest else it :: eraseGlob uri rest

def addGlobServletCreator (d : ServletDispatch S C K) (uri : String) (creator : ServletCreator S C K) :
    ServletDispatch S C K :=
  { d with globs := eraseGlob uri d.globs ++ [(uri, creator)] }

def addGlobServlet (d : ServletDispatch S C K) (uri : String) (slt : Servlet S C) : ServletDispatch S C K :=
  { d with globs := eraseGlob uri d.globs ++ [(uri, .hold slt)] }

/-- The overload of `addGlobServlet` with a callback. -/
def addGlobServletFunction (d : ServletDispatch S C K) (uri : String) (cb : C) : ServletDispatch S C K :=
  d.addGlobServlet uri (.function cb)

def delServlet (d : ServletDispatch S C K) (uri : String) : ServletDispatch S C K :=
  { d with datas := fun u => if u = uri then none else d.datas u }

def delGlobServlet (d : ServletDispatch S C K) (uri : String) : ServletDispatch S C K :=
  { d with globs := eraseGlob uri d.globs }

def setDefault (d : ServletDispatch S C K) (v : Servlet S C) : ServletDispatch S C K :=
  { d with default := v }

/-- The loop of `getMatchedServlet` over `m_globs`; `fnmatch` returns 0 for a match. -/
def matchGlob (fnmatch : String → String → Int) (uri : String) :
    List (String × ServletCreator S C K) → Option (ServletCreator S C K)
  | [] => none
  | it :: rest => if fnmatch it.1 uri = 0 then some it.2 else matchGlob fnmatch uri rest

def getMatchedServlet (fnmatch : String → String → Int) (make : K → W → Servlet S C) (now : W)
    (d : ServletDispatch S C K) (uri : String) : Servlet S C :=
  match d.datas uri with
  | some creator => creator.get make now
  | none =>
    match matchGlob fnmatch uri d.globs with
    | some creator => creator.get make now
    | none => d.default

end ServletDispatch

/-! ## Histories -/

/-- A call that registers, removes or sets the default. -/
inductive ServletOp (S C K : Type) where
  | addServlet (uri : String) (slt : Servlet S C)
  | addServletFunction (uri : String) (cb : C)
  | addServletCreator (uri : String) (creator : ServletCreator S C K)
  | addGlobServlet (uri : String) (slt : Servlet S C)
  | addGlobServletFunction (uri : String) (cb : C)
  | addGlobServletCreator (uri : String) (creator : ServletCreator S C K)
  | delServlet (uri : String)
  | delGlobServlet (uri : String)
  | setDefault (v : Servlet S C)

/-- The call's effect. -/
def ServletDispatch.step (d : ServletDispatch S C K) : ServletOp S C K → ServletDispatch S C K
  | .addServlet uri slt => d.addServlet uri slt
  | .addServletFunction uri cb => d.addServletFunction uri cb
  | .addServletCreator uri creator => d.addServletCreator uri creator
  | .addGlobServlet uri slt => d.addGlobServlet uri slt
  | .addGlobServletFunction uri cb => d.addGlobServletFunction uri cb
  | .addGlobServletCreator uri creator => d.addGlobServletCreator uri creator
  | .delServlet uri => d.delServlet uri
  | .delGlobServlet uri => d.delGlobServlet uri
  | .setDefault v => d.setDefault v

/-- The dispatcher after a history of calls. -/
def ServletDispatch.run (ops : List (ServletOp S C K)) : ServletDispatch S C K :=
  ops.foldl ServletDispatch.step ServletDispatch.init

/-- The exact path a call registers or removes. -/
def ServletOp.exact : ServletOp S C K → Event String (ServletCreator S C K)
  | .addServlet uri slt => some (uri, some (.hold slt))
  | .addServletFunction uri cb => some (uri, some (.hold (.function cb)))
  | .addServletCreator uri creator => some (uri, some creator)
  | .delServlet uri => some (uri, none)
  | _ => none

/-- The pattern a call registers or removes. -/
def ServletOp.glob : ServletOp S C K → Event String (ServletCreator S C K)
  | .addGlobServlet uri slt => some (uri, some (.hold slt))
  | .addGlobServletFunction uri cb => some (uri, some (.hold (.function cb)))
  | .addGlobServletCreator uri creator => some (uri, some creator)
  | .delGlobServlet uri => some (uri, none)
  | _ => none

/-- The default a call sets. -/
def ServletOp.default : ServletOp S C K → Option (Servlet S C)
  | .setDefault v => some v
  | _ => none

/-- The default set last, or the one of the constructor. -/
def currentDefault (ops : List (ServletOp S C K)) : Servlet S C :=
  (ops.filterMap ServletOp.default).getLastD (.notFound "sylar/1.0")

/-- Call `i` registered `creator` for the exact path, and no later call touched that path. -/
def ExactlyRegistered (ops : List (ServletOp S C K)) (i : Nat) (uri : String)
    (creator : ServletCreator S C K) : Prop :=
  Latest (ops.map ServletOp.exact) i uri creator

/-- Call `i` registered `creator` for the pattern, and no later call touched that pattern. -/
def GlobRegistered (ops : List (ServletOp S C K)) (i : Nat) (uri : String)
    (creator : ServletCreator S C K) : Prop :=
  Latest (ops.map ServletOp.glob) i uri creator

theorem eraseGlob_eq (uri : String) (l : List (String × ServletCreator S C K)) :
    ServletDispatch.eraseGlob uri l = eraseKey uri l := by
  induction l with
  | nil => rfl
  | cons it rest ih =>
    rw [ServletDispatch.eraseGlob, ih]
    by_cases h : it.1 = uri
    · simp [eraseKey, h]
    · simp [eraseKey, h]

/-- One call writes its event to each container. -/
theorem step_reads (d : ServletDispatch S C K) (op : ServletOp S C K) :
    (d.step op).datas = writeMap d.datas op.exact ∧ (d.step op).globs = writeList d.globs op.glob ∧
      (d.step op).default = op.default.getD d.default := by
  cases op <;>
    simp [ServletDispatch.step, ServletDispatch.addServlet, ServletDispatch.addServletFunction,
      ServletDispatch.addServletCreator, ServletDispatch.addGlobServlet, ServletDispatch.addGlobServletFunction,
      ServletDispatch.addGlobServletCreator, ServletDispatch.delServlet, ServletDispatch.delGlobServlet,
      ServletDispatch.setDefault, ServletOp.exact, ServletOp.glob, ServletOp.default, writeMap, writeList,
      eraseGlob_eq]

/-- A whole history leaves in each container what its events leave there. -/
theorem run_reads (ops : List (ServletOp S C K)) :
    (ServletDispatch.run ops).datas = readMap (ops.map ServletOp.exact) ∧
      (ServletDispatch.run ops).globs = readList (ops.map ServletOp.glob) ∧
      (ServletDispatch.run ops).default = currentDefault ops := by
  induction ops using List.reverseRecOn with
  | nil => exact ⟨rfl, rfl, rfl⟩
  | append_singleton ops op ih =>
    obtain ⟨hdatas, hglobs, hdefault⟩ := ih
    have hrun : ServletDispatch.run (ops ++ [op]) = (ServletDispatch.run ops).step op := by
      simp [ServletDispatch.run]
    obtain ⟨hd, hg, hv⟩ := step_reads (ServletDispatch.run ops) op
    refine ⟨?_, ?_, ?_⟩
    · rw [hrun, hd, hdatas]
      simp [readMap]
    · rw [hrun, hg, hglobs]
      simp [readList]
    · rw [hrun, hv, hdefault, currentDefault, currentDefault, List.filterMap_append]
      cases op with
      | setDefault v => simp [ServletOp.default]
      | _ => simp [ServletOp.default]

/-! ## Routing -/

/-- The loop over `m_globs` stops at the first pattern that is accepted. -/
theorem matchGlob_eq (fnmatch : String → String → Int) (uri : String)
    (l : List (String × ServletCreator S C K)) :
    ServletDispatch.matchGlob fnmatch uri l = (l.find? fun g => fnmatch g.1 uri = 0).map Prod.snd := by
  induction l with
  | nil => rfl
  | cons it rest ih =>
    rw [ServletDispatch.matchGlob, ih]
    by_cases h : fnmatch it.1 uri = 0
    · simp [h]
    · simp [h]

/-- After any history of calls the patterns are distinct and ordered by the call that
registered each last, and a path is answered by its own registration, else by the first
pattern that accepts it, else by the default. -/
theorem getMatchedServlet_run (fnmatch : String → String → Int) (make : K → W → Servlet S C) (now : W)
    (ops : List (ServletOp S C K)) (path : String) :
    let globs := (ServletDispatch.run ops).globs
    let matched := (ServletDispatch.run ops).getMatchedServlet fnmatch make now path
    (globs.map Prod.fst).Nodup ∧
      (∀ uri creator, (uri, creator) ∈ globs ↔ ∃ i, GlobRegistered ops i uri creator) ∧
      (globs.Pairwise fun g h => ∀ i j, GlobRegistered ops i g.1 g.2 → GlobRegistered ops j h.1 h.2 → i < j) ∧
      (∀ i creator, ExactlyRegistered ops i path creator → matched = creator.get make now) ∧
      ((¬ ∃ i creator, ExactlyRegistered ops i path creator) →
        (∀ g, globs.find? (fun g => fnmatch g.1 path = 0) = some g → matched = g.2.get make now) ∧
          ((∀ g ∈ globs, fnmatch g.1 path ≠ 0) → matched = currentDefault ops)) := by
  obtain ⟨hdatas, hglobs, hdefault⟩ := run_reads ops
  have hordered := ordered_readList (ops.map ServletOp.glob)
  rw [← hglobs] at hordered
  refine ⟨hordered.nodup, hordered.mem, hordered.order, ?_, ?_⟩
  · intro i creator hexact
    have hfind := (readMap_iff _ _ _).mpr ⟨i, hexact⟩
    rw [ServletDispatch.getMatchedServlet, hdatas, hfind]
  · intro hexact
    have hfind := (readMap_eq_none_iff _ _).mpr hexact
    rw [ServletDispatch.getMatchedServlet, hdatas, hfind]
    simp only [matchGlob_eq]
    constructor
    · intro g hg
      rw [hg, Option.map_some]
    · intro hnone
      have hmiss : (ServletDispatch.run ops).globs.find? (fun g => fnmatch g.1 path = 0) = none := by
        rw [List.find?_eq_none]
        intro g hg
        simpa using hnone g hg
      rw [hmiss, Option.map_none]
      exact hdefault

end

-- A pattern registered again moves behind the others; a removed path falls back to the patterns.
example :
    let ops : List (ServletOp Nat Empty Empty) := [.addGlobServlet "/a*" (.user 1), .addGlobServlet "/*" (.user 2),
      .addGlobServlet "/a*" (.user 3), .addServlet "/ab" (.user 4), .delServlet "/ab"]
    (ServletDispatch.run ops).getMatchedServlet (fun _ _ => 0) (fun k _ => k.elim) () "/ab" = .user 2 := by
  decide

end Sylar.Http
