import DatedCounts.Cursor.Stack
import DatedCounts.Proofs.Cursor.Rollup
import DatedCounts.Proofs.Cursor.Sieve

/-!
# What a stack of sieves reads

A stack of sieves over a store reads the records that all its filters accept, whatever the order of the
sieves and however long each of them steps before it jumps.
-/

namespace DatedCounts

def Filter.Config.layer (config : Config) : Except Error Layer :=
  (Filter.ofConfig config).map fun filter => .sieve filter config.maxNext

def Filter.Config.withoutSteps (config : Config) : Config := { config with maxNext := 0 }

namespace Stack

/-- The states of a stack that stands on a store of some data. -/
def IsOver (data : OrderedMap Key Bytes) : (layers : List Layer) → Stack layers → Prop
  | [], (s : Store) => s.data = data
  | .sieve filter maxNext :: below, (s : Sieve (Stack below)) =>
    IsOver data below s.source ∧ s.filter = filter ∧ s.maxNext = maxNext
  | .rollup combiner :: below, (s : Rollup (Stack below)) =>
    IsOver data below s.source ∧ s.combiner = combiner

theorem isOver_ofData (data : OrderedMap Key Bytes) (layers : List Layer) :
    IsOver data layers (ofData data layers) := by
  induction layers with
  | nil => rfl
  | cons layer below ih =>
    cases layer with
    | sieve => exact ⟨ih, rfl, rfl⟩
    | rollup => exact ⟨ih, rfl⟩

theorem kept_isOver (data : OrderedMap Key Bytes) (layers : List Layer) :
    Cursor.Kept (IsOver data layers) := by
  induction layers with
  | nil => exact Store.kept data
  | cons layer below ih =>
    cases layer with
    | sieve filter maxNext => exact Sieve.kept ih filter maxNext
    | rollup combiner => exact Rollup.kept ih combiner

private theorem mapM_layer_cons {config : Filter.Config} {configs : List Filter.Config}
    {layers : List Layer} (h : (config :: configs).mapM Filter.Config.layer = .ok layers) :
    ∃ filter below, Filter.ofConfig config = .ok filter ∧
      configs.mapM Filter.Config.layer = .ok below ∧
      layers = .sieve filter config.maxNext :: below := by
  rw [List.mapM_cons] at h
  obtain ⟨layer, hlayer, h⟩ := bind_eq_ok.1 h
  obtain ⟨below, hbelow, h⟩ := bind_eq_ok.1 h
  obtain ⟨filter, hfilter, rfl⟩ := map_eq_ok.1 hlayer
  cases h
  exact ⟨filter, below, hfilter, hbelow, rfl⟩

/-- A stack of sieves serves what all its settings accept. -/
theorem serves (data : OrderedMap Key Bytes) {configs : List Filter.Config} {layers : List Layer}
    (hlayers : configs.mapM Filter.Config.layer = .ok layers) :
    Cursor.Serves data (fun key => configs.all (·.accepts key)) (IsOver data layers) := by
  induction configs generalizing layers with
  | nil =>
    cases hlayers
    exact Store.serves data
  | cons config configs ih =>
    obtain ⟨filter, below, hfilter, hbelow, rfl⟩ := mapM_layer_cons hlayers
    have hserves := Sieve.serves (ih hbelow) (Filter.separator_notMem_of_mem hfilter) config.maxNext
    have hkeeps : (fun key => (config :: configs).all (·.accepts key)) =
        fun key => filter.accepts key && configs.all (·.accepts key) := by
      funext key
      rw [List.all_cons, Filter.accepts_eq hfilter]
    rw [hkeeps]
    exact hserves

/-- A stack of sieves that ends without an error has read the records that all its settings accept.
It does end so over raw records. Neither the order of the sieves nor how far they step matters. -/
theorem sieves_read {data : OrderedMap Key Bytes} {configs : List Filter.Config}
    {layers : List Layer} (hlayers : configs.mapM Filter.Config.layer = .ok layers)
    {s : Stack layers} (hs : IsOver data layers s) (range : Range) (projection : Projection) :
    let accepted := (Store.within data range projection).filter fun record =>
      configs.all (·.accepts record.1)
    Ascending accepted ∧
    (∀ top out, Cursor.seek range projection s = .done top → Cursor.Reads top out none →
      out = accepted) ∧
    ((∀ record ∈ Store.within data range projection, record.1.parts.isRaw) →
      ∃ top, Cursor.seek range projection s = .done top ∧ Cursor.Reads top accepted none) ∧
    ∀ (others : List Filter.Config) (otherLayers : List Layer) (s' : Stack otherLayers),
      others.mapM Filter.Config.layer = .ok otherLayers → IsOver data otherLayers s' →
      (others.map Filter.Config.withoutSteps).Perm (configs.map Filter.Config.withoutSteps) →
      ∀ top out, Cursor.seek range projection s' = .done top → Cursor.Reads top out none →
        out = accepted := by
  have hread : ∀ (others : List Filter.Config) (otherLayers : List Layer) (s' : Stack otherLayers),
      others.mapM Filter.Config.layer = .ok otherLayers → IsOver data otherLayers s' →
      ∀ top out, Cursor.seek range projection s' = .done top → Cursor.Reads top out none →
        out = Cursor.content data (fun key => others.all (·.accepts key)) range projection := by
    intro others otherLayers s' hothers hs' top out hseek hreads
    have hshows := (serves data hothers).shows hs' range projection
    rw [hseek] at hshows
    exact hshows.eq_of_reads hreads
  have hascending := Cursor.content_ascending data (fun key => configs.all (·.accepts key)) range
    projection
  refine ⟨hascending, hread configs layers s hlayers hs, ?_, ?_⟩
  · intro hraw
    have hshows := (serves data hlayers).shows hs range projection
    cases hseek : Cursor.seek range projection s with
    | failed e s' =>
      rw [hseek] at hshows
      exact absurd hraw hshows
    | done top =>
      rw [hseek] at hshows
      exact ⟨top, rfl, hshows.reads hraw⟩
  · intro others otherLayers s' hothers hs' hperm top out hseek hreads
    have haccepts : ∀ key, others.all (·.accepts key) = configs.all (·.accepts key) := by
      intro key
      have hall := hperm.all_eq (f := fun config => config.accepts key)
      rw [List.all_map, List.all_map] at hall
      exact hall
    rw [hread others otherLayers s' hothers hs' top out hseek hreads]
    simp only [Cursor.content, haccepts]

def days : OrderedMap Key Bytes := .ofList
  [(⟨[1], [2], 97 :: 0 :: Utf8.encode "20200101".toList, [], 1⟩, [1]),
    (⟨[1], [2], 97 :: 0 :: Utf8.encode "20200615".toList, [], 1⟩, [2]),
    (⟨[1], [2], 97 :: 0 :: Utf8.encode "20210101".toList, [], 1⟩, [3]),
    (⟨[1], [2], 97 :: 98 :: 0 :: Utf8.encode "20200615".toList, [], 1⟩, [4])]

/-- Settings for one datatype in 2020, and for all datatypes from June 2020 on. -/
def twoWindows : List Filter.Config :=
  [⟨.ofList [[97]], some "20200101", some "20201231", 0⟩,
    ⟨∅, some "20200601", some "20211231", 3⟩]

theorem sieves_read_days :
    ∃ layers, twoWindows.mapM Filter.Config.layer = .ok layers ∧
      IsOver days layers (ofData days layers) ∧
      let accepted := (Store.within days .all .everything).filter fun record =>
        twoWindows.all (·.accepts record.1)
      accepted.map (·.2) = [[2]] ∧ Ascending accepted ∧
      (∀ top out, Cursor.seek .all .everything (ofData days layers) = .done top →
        Cursor.Reads top out none → out = accepted) ∧
      ((∀ record ∈ Store.within days .all .everything, record.1.parts.isRaw) →
        ∃ top, Cursor.seek .all .everything (ofData days layers) = .done top ∧
          Cursor.Reads top accepted none) ∧
      ∀ (others : List Filter.Config) (otherLayers : List Layer) (s' : Stack otherLayers),
        others.mapM Filter.Config.layer = .ok otherLayers → IsOver days otherLayers s' →
        (others.map Filter.Config.withoutSteps).Perm (twoWindows.map Filter.Config.withoutSteps) →
        ∀ top out, Cursor.seek .all .everything s' = .done top → Cursor.Reads top out none →
          out = accepted := by
  have hlayers : ∃ layers, twoWindows.mapM Filter.Config.layer = .ok layers := ⟨_, rfl⟩
  obtain ⟨layers, hlayers⟩ := hlayers
  have hover := isOver_ofData days layers
  exact ⟨layers, hlayers, hover, by decide, sieves_read hlayers hover .all .everything⟩

def lone : OrderedMap Key Bytes := .ofList [(⟨[1], [2], [97], [], 1⟩, [0])]

/-- Without any sieve a stack is its store, which reads records of sums too. -/
theorem not_reads_raw_only : ¬ ∀ (data : OrderedMap Key Bytes) (configs : List Filter.Config)
    (layers : List Layer), configs.mapM Filter.Config.layer = .ok layers →
    ∀ (range : Range) (projection : Projection) (top : Stack layers) (out : List Record),
      Cursor.seek range projection (ofData data layers) = .done top → Cursor.Reads top out none →
      out = (Store.within data range projection).filter fun record =>
        record.1.parts.isRaw && configs.all (·.accepts record.1) := by
  intro h
  obtain ⟨top, hseek, hreads⟩ :=
    ((Store.ofData lone).opens_seek .all .everything).exists_done
  have hout := h lone [] [] rfl .all .everything top _ hseek hreads
  exact absurd hout (by decide)

end Stack

end DatedCounts
