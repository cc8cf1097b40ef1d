import NetImage.Bytes

/-!
# NetImage.Build.Journal

What the compiler reports while it works, and computations that report.

* `Event` — the reports, with their level, wording and fields.
* `Traced` — a result or an error, together with the reports made on the way. A result never depends
  on the reports.
-/

namespace NetImage

/-- How much a report matters. -/
inductive Level where
  | debug
  | info
  | warn
  deriving DecidableEq, Repr

/-- The value of a field of a report. -/
inductive EventValue where
  | int (n : Int)
  | ints (ns : List Int)
  | text (s : Bytes)
  | real (x : Float)

/-- A report. -/
inductive Event where
  | squeezeFolded (node tensor : Bytes) (before after : List Int64)
  | graphNormalized (declared nodes squeezesFolded : Nat)
  | weightsReordered (tensor : Bytes)
  | beyondRange (value lower upper : Float)
  | parametersPlaced (params params2 overflows : Nat)
  | imageAssembled (used : Int) (size nodes : Nat) (nInput : Int)
  | samplesLoaded (file : Bytes) (samples : Nat)
  | written (dir : Bytes) (used nvmSize : Int)

namespace Event

def level : Event → Level
  | .squeezeFolded .. => .debug
  | .weightsReordered .. => .debug
  | .beyondRange .. => .warn
  | _ => .info

def message : Event → String
  | .squeezeFolded .. => "squeeze folded"
  | .graphNormalized .. => "graph normalized"
  | .weightsReordered .. => "reorder conv param"
  | .beyondRange .. => "value beyond q15 range"
  | .parametersPlaced .. => "parameters placed"
  | .imageAssembled .. => "image assembled"
  | .samplesLoaded .. => "dataset loaded"
  | .written .. => "written"

def fields : Event → List (String × EventValue)
  | .squeezeFolded node tensor before after =>
    [("node", .text node), ("const", .text tensor), ("from", .ints (before.map Int64.toInt)),
     ("to", .ints (after.map Int64.toInt))]
  | .graphNormalized declared nodes squeezesFolded =>
    [("declared", .int declared), ("nodes", .int nodes), ("squeezesFolded", .int squeezesFolded)]
  | .weightsReordered tensor => [("const", .text tensor)]
  | .beyondRange value lower upper =>
    [("value", .real value), ("lower", .real lower), ("upper", .real upper)]
  | .parametersPlaced params params2 overflows =>
    [("params", .int params), ("params2", .int params2), ("overflows", .int overflows)]
  | .imageAssembled used size nodes nInput =>
    [("used", .int used), ("size", .int size), ("nodes", .int nodes), ("nInput", .int nInput)]
  | .samplesLoaded file samples => [("file", .text file), ("samples", .int samples)]
  | .written dir used nvmSize =>
    [("dir", .text dir), ("used", .int used), ("nvmSize", .int nvmSize)]

end Event

/-- A result or an error, and the reports made on the way. -/
structure Traced (ε α : Type) where
  log : Array Event
  result : Except ε α

namespace Traced

variable {ε α β σ : Type}

/-- A result without reports. -/
def ofExcept (result : Except ε α) : Traced ε α := ⟨#[], result⟩

/-- Reports alone. -/
def tell (log : Array Event) : Traced ε Unit := ⟨log, .ok ()⟩

/-- One computation after another. -/
def andThen (x : Traced ε α) (f : α → Traced ε β) : Traced ε β :=
  match x.result with
  | .error e => ⟨x.log, .error e⟩
  | .ok a =>
    let y := f a
    ⟨x.log ++ y.log, y.result⟩

instance : Monad (Traced ε) where
  pure a := ⟨#[], .ok a⟩
  bind := andThen

instance : MonadLift (Except ε) (Traced ε) where
  monadLift := ofExcept

/-- Goes through a list with a state; `log` holds the reports so far. -/
def foldFrom (f : σ → α → Traced ε σ) : Array Event → σ → List α → Traced ε σ
  | log, s, [] => ⟨log, .ok s⟩
  | log, s, a :: as =>
    let y := f s a
    match y.result with
    | .error e => ⟨log ++ y.log, .error e⟩
    | .ok s => foldFrom f (log ++ y.log) s as

/-- Goes through a list with a state. -/
def fold (f : σ → α → Traced ε σ) (s : σ) (as : List α) : Traced ε σ := foldFrom f #[] s as

@[simp] theorem result_pure (a : α) : (pure a : Traced ε α).result = .ok a := rfl

@[simp] theorem result_tell (log : Array Event) : (tell log : Traced ε Unit).result = .ok () := rfl

@[simp] theorem result_ofExcept (x : Except ε α) : (ofExcept x).result = x := rfl

@[simp] theorem result_bind (x : Traced ε α) (f : α → Traced ε β) :
    (x >>= f).result = x.result >>= fun a => (f a).result := by
  show (andThen x f).result = _
  unfold andThen
  cases x.result <;> rfl

theorem result_foldFrom (f : σ → α → Traced ε σ) (log : Array Event) (s : σ) (as : List α) :
    (foldFrom f log s as).result = as.foldlM (fun s a => (f s a).result) s := by
  induction as generalizing log s with
  | nil => rfl
  | cons a as ih =>
    simp only [foldFrom, List.foldlM_cons]
    cases (f s a).result with
    | error e => rfl
    | ok s => exact ih _ s

@[simp] theorem result_fold (f : σ → α → Traced ε σ) (s : σ) (as : List α) :
    (fold f s as).result = as.foldlM (fun s a => (f s a).result) s :=
  result_foldFrom f #[] s as

end Traced
end NetImage
