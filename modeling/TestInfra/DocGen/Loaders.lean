import TestInfra.Lib.JsonText

set_option autoImplicit false

/-! # Loaders of data sets

`WikiJSONGenerator`, `NapaDataLoader` and `GeoSpatialDataLoader` (`lib/couchbase_helper/documentgenerator.py`) fill
`gen_docs` from a file of documents, and begin again at the end of the file until `end` is reached.

All of them count the documents in the same inner loop. What differs is the loop around it: three open the file in
each round, `read_from_dump` opens it once, and in the second round there is nothing left to read. -/

namespace TestInfra.Loaders

open PyText JsonText

variable {S D E α L : Type}

/-! ## The loops -/

/-- How a loader ends, with at most so many rounds. -/
inductive Load (E : Type) where
  | returned (genDocs : Dict ℕ E)
  | raised
  | running

/-- A file that is looked for, and fetched when it is not there. `none` is the `IOError`. -/
structure Source (S : Type) where
  file : Option S
  download : Option S

/-- The contents that are read in the end. -/
def Source.contents (source : Source S) : Option S := source.file.or source.download

/-- The loop over the documents of one round: `gen_docs`, `count` and `done` after it. `edit` is what is made of a
    document at a count; `none` when it raises. -/
def fill (edit : ℕ → D → Option E) (stop : ℤ) : List D → ℕ → Dict ℕ E → Option (Dict ℕ E × ℕ × Bool)
  | [], count, genDocs => some (genDocs, count, false)
  | doc :: docs, count, genDocs =>
      match edit count doc with
      | none => none
      | some made =>
          if (count : ℤ) ≥ stop then some (genDocs.set count made, count, true)
          else fill edit stop docs (count + 1) (genDocs.set count made)

/-- `while not done` around it, where each round opens the file. -/
def rereading (read : S → Option (List D)) (edit : ℕ → D → Option E) (stop : ℤ) (download : Option S) :
    ℕ → Option S → ℕ → Dict ℕ E → Load E
  | 0, _, _, _ => .running
  | n + 1, none, count, genDocs =>
      match download with
      | none => .raised
      | some file => rereading read edit stop download n (some file) count genDocs
  | n + 1, some file, count, genDocs =>
      match (read file).bind fun docs => fill edit stop docs count genDocs with
      | none => .raised
      | some (genDocs, _, true) => .returned genDocs
      | some (genDocs, count, false) => rereading read edit stop download n (some file) count genDocs

/-- `read_from_wiki_dump`. The documents are the lines of the file. -/
def readFromWikiDump (source : Source (List L)) (stop : ℤ) (fuel : ℕ) : Load L :=
  rereading some (fun _ doc => some doc) stop source.download fuel source.file 0 ∅

/-- `read_from_napa_dump`. -/
def readFromNapaDump (source : Source (List L)) (stop : ℤ) (fuel : ℕ) : Load L :=
  rereading some (fun _ doc => some doc) stop source.download fuel source.file 0 ∅

/-- What `for doc in ..` runs over. -/
def elements : Json α → Option (List (Json α))
  | .scalar _ => none
  | .str text => some (text.map fun c => .str [c])
  | .list items => some items
  | .dict items => some (items.map fun p => .str p.1)

section Geo

variable (sc : Scalars α) (str : Json α → Text)

/-- The edits of `custom_read_from_dump`; `str` is Python's. -/
def customEdit : Json α → Option (Json α)
  | .dict items => do
      let id ← Assoc.find "id".toList items
      let items := Assoc.store "id".toList (.str (str id)) items
      pure (.dict (Assoc.store "type".toList (.str "earthquake".toList) items))
  | _ => none

/-- `custom_read_from_dump`. -/
def customReadFromDump (source : Source Text) (stop : ℤ) (fuel : ℕ) : Load (Json α) :=
  rereading (fun file => (loads sc file).bind elements) (fun _ => customEdit str) stop source.download fuel source.file
    0 ∅

/-- `doc['geo'] = [doc['geo']['lon'], doc['geo']['lat']]`, if the random bit is set. -/
def geoEdit (bit : Bool) (items : List (Text × Json α)) : Option (List (Text × Json α)) :=
  if bit then
    match Assoc.find "geo".toList items with
    | some (.dict geo) => do
        let lon ← Assoc.find "lon".toList geo
        let lat ← Assoc.find "lat".toList geo
        pure (Assoc.store "geo".toList (.list [lon, lat]) items)
    | _ => none
  else some items

/-- The edits of `read_from_dump`, with the random bit. -/
def dumpEdit (bit : Bool) : Json α → Option (Json α)
  | .dict items => do
      let items ← geoEdit bit items
      let eqid ← Assoc.find "Eqid".toList items
      let items := Assoc.store "Eqid".toList (.str (str eqid)) items
      let version ← Assoc.find "Version".toList items
      let items := Assoc.store "Version".toList (.str (str version)) items
      let items := Assoc.store "mutated".toList (.scalar (sc.int 0)) items
      pure (.dict (Assoc.store "type".toList (.str "earthquake".toList) items))
  | _ => none

/-- `while not done` in `read_from_dump`, where the file stays open: a round reads what is left of it. -/
def dumpRounds (bits : ℕ → Bool) (stop : ℤ) : ℕ → Text → ℕ → Dict ℕ (Json α) → Load (Json α)
  | 0, _, _, _ => .running
  | n + 1, unread, count, genDocs =>
      match ((loads sc unread).bind elements).bind fun docs =>
          fill (fun i => dumpEdit sc str (bits i)) stop docs count genDocs with
      | none => .raised
      | some (genDocs, _, true) => .returned genDocs
      | some (genDocs, count, false) => dumpRounds bits stop n [] count genDocs

/-- `read_from_dump`. Without the file nothing is loaded. -/
def readFromDump (bits : ℕ → Bool) (file : Option Text) (stop : ℤ) (fuel : ℕ) : Load (Json α) :=
  match file with
  | none => .returned ∅
  | some text => dumpRounds sc str bits stop fuel text 0 ∅

end Geo

/-! ## One round -/

/-- The documents below a count are there, each built from its own. -/
def FilledTo (edit : ℕ → D → Option E) (data : List D) (count : ℕ) (genDocs : Dict ℕ E) : Prop :=
  ∀ i < count, ∃ doc made, data[i % data.length]? = some doc ∧ edit i doc = some made ∧ genDocs.get? i = some made

/-- Nothing is there in front of the first round. -/
theorem filledTo_empty (edit : ℕ → D → Option E) (data : List D) : FilledTo edit data (0 * data.length) ∅ := by
  rw [Nat.zero_mul]
  exact fun i hi => absurd hi (Nat.not_lt_zero i)

theorem FilledTo.set {edit : ℕ → D → Option E} {data : List D} {count : ℕ} {genDocs : Dict ℕ E}
    (h : FilledTo edit data count genDocs) {doc : D} (hdoc : data[count % data.length]? = some doc) {made : E}
    (hmade : edit count doc = some made) : FilledTo edit data (count + 1) (genDocs.set count made) := by
  intro i hi
  rcases Nat.lt_succ_iff_lt_or_eq.1 hi with hlt | rfl
  · obtain ⟨doc, made, hdoc, hmade, hget⟩ := h i hlt
    refine ⟨doc, made, hdoc, hmade, ?_⟩
    rw [Dict.get?_set, if_neg (Nat.ne_of_lt hlt), hget]
  · refine ⟨doc, made, hdoc, hmade, ?_⟩
    rw [Dict.get?_set, if_pos rfl]

/-- What a round leaves. -/
inductive Filled (edit : ℕ → D → Option E) (data : List D) (stop : ℤ) (rounds : ℕ) :
    Option (Dict ℕ E × ℕ × Bool) → Prop where
  | failed (i : ℕ) (hi : (i : ℤ) ≤ stop) (doc : D) (hdoc : data[i % data.length]? = some doc)
      (hedit : edit i doc = none) : Filled edit data stop rounds none
  | done (genDocs : Dict ℕ E) (count : ℕ) (hcount : (count : ℤ) = stop) (hlt : count < (rounds + 1) * data.length)
      (h : FilledTo edit data (count + 1) genDocs) : Filled edit data stop rounds (some (genDocs, count, true))
  | more (genDocs : Dict ℕ E) (hle : (((rounds + 1) * data.length : ℕ) : ℤ) ≤ stop)
      (h : FilledTo edit data ((rounds + 1) * data.length) genDocs) :
      Filled edit data stop rounds (some (genDocs, (rounds + 1) * data.length, false))

theorem fill_filled {edit : ℕ → D → Option E} {data before docs : List D} (hdata : data = before ++ docs) {stop : ℤ}
    {rounds : ℕ} (hle : ((rounds * data.length + before.length : ℕ) : ℤ) ≤ stop) {genDocs : Dict ℕ E}
    (h : FilledTo edit data (rounds * data.length + before.length) genDocs) :
    Filled edit data stop rounds (fill edit stop docs (rounds * data.length + before.length) genDocs) := by
  induction docs generalizing before genDocs with
  | nil =>
      have hcount : rounds * data.length + before.length = (rounds + 1) * data.length := by
        rw [hdata, List.append_nil, Nat.succ_mul]
      rw [hcount] at hle h ⊢
      exact .more genDocs hle h
  | cons doc docs ih =>
      have hlength : data.length = before.length + docs.length + 1 := by
        rw [hdata, List.length_append, List.length_cons, Nat.add_assoc]
      have hmod : (rounds * data.length + before.length) % data.length = before.length := by
        rw [Nat.mul_comm, Nat.mul_add_mod, Nat.mod_eq_of_lt (by omega)]
      have hdoc : data[(rounds * data.length + before.length) % data.length]? = some doc := by
        rw [hmod, hdata, List.getElem?_append_right (Nat.le_refl _), Nat.sub_self]
        rfl
      rw [fill]
      rcases hedit : edit (rounds * data.length + before.length) doc with _ | made
      · exact .failed _ hle doc hdoc hedit
      have hset := h.set hdoc hedit
      by_cases hstop : ((rounds * data.length + before.length : ℕ) : ℤ) ≥ stop
      · simp only [if_pos hstop]
        refine .done _ _ (by omega) ?_ hset
        rw [Nat.succ_mul]
        omega
      · simp only [if_neg hstop]
        have hnext : rounds * data.length + before.length + 1 = rounds * data.length + (before ++ [doc]).length := by
          rw [List.length_append, List.length_singleton, Nat.add_assoc]
        rw [hnext] at hset ⊢
        exact ih (by rw [hdata, List.append_assoc]; rfl) (by rw [← hnext]; omega) hset

/-! ## Whole loads -/

/-- With enough rounds the loader ends in this way. -/
def Ends (run : ℕ → Load E) (out : Load E) : Prop := ∃ enough, ∀ fuel, enough ≤ fuel → run fuel = out

theorem Ends.unique {run : ℕ → Load E} {out out' : Load E} (h : Ends run out) (h' : Ends run out') : out = out' := by
  obtain ⟨enough, h⟩ := h
  obtain ⟨enough', h'⟩ := h'
  rw [← h (max enough enough') (Nat.le_max_left ..), h' _ (Nat.le_max_right ..)]

/-- The loader returns. It has built each document up to `end` from the one it stands for, so that each below `end`
    is found. -/
def Loads (run : ℕ → Load E) (edit : ℕ → D → Option E) (data : List D) (stop : ℤ) : Prop :=
  ∃ genDocs, Ends run (.returned genDocs) ∧
    (∀ i : ℕ, (i : ℤ) ≤ stop →
      ∃ doc made, data[i % data.length]? = some doc ∧ edit i doc = some made ∧ genDocs.get? i = some made) ∧
    ∀ itr : ℕ, (itr : ℤ) < stop → (genDocs.get? itr).isSome

/-- The edits of all documents up to `end` go through. -/
def Editable (edit : ℕ → D → Option E) (data : List D) (stop : ℤ) : Prop :=
  ∀ i : ℕ, (i : ℤ) ≤ stop → ∀ doc, data[i % data.length]? = some doc → (edit i doc).isSome

theorem Loads.editable {run : ℕ → Load E} {edit : ℕ → D → Option E} {data : List D} {stop : ℤ}
    (h : Loads run edit data stop) : Editable edit data stop := by
  obtain ⟨genDocs, -, hbuilt, -⟩ := h
  intro i hi doc hdoc
  obtain ⟨doc', made, hdoc', hmade, -⟩ := hbuilt i hi
  rw [hdoc] at hdoc'
  rw [Option.some.inj hdoc', hmade]
  rfl

/-- A load that is complete, or was broken off at a document whose edits raise. -/
inductive Ended (edit : ℕ → D → Option E) (data : List D) (stop : ℤ) : Load E → Prop where
  | returned (genDocs : Dict ℕ E) (h : FilledTo edit data (stop.toNat + 1) genDocs) :
      Ended edit data stop (.returned genDocs)
  | raised (i : ℕ) (hi : (i : ℤ) ≤ stop) (doc : D) (hdoc : data[i % data.length]? = some doc)
      (hedit : edit i doc = none) : Ended edit data stop .raised

theorem loads_of_filledTo {run : ℕ → Load E} {edit : ℕ → D → Option E} {data : List D} {stop : ℤ}
    {genDocs : Dict ℕ E} (hrun : Ends run (.returned genDocs)) (h : FilledTo edit data (stop.toNat + 1) genDocs) :
    Loads run edit data stop := by
  refine ⟨genDocs, hrun, fun i hi => h i (by omega), fun itr hitr => ?_⟩
  obtain ⟨-, made, -, -, hget⟩ := h itr (by omega)
  rw [hget]
  rfl

theorem Ended.loads_iff {run : ℕ → Load E} {out : Load E} (hrun : Ends run out) {edit : ℕ → D → Option E}
    {data : List D} {stop : ℤ} (h : Ended edit data stop out) :
    Loads run edit data stop ↔ Editable edit data stop := by
  refine ⟨Loads.editable, fun hedit => ?_⟩
  rcases h with ⟨genDocs, hfilled⟩ | ⟨i, hi, doc, hdoc, hnone⟩
  · exact loads_of_filledTo hrun hfilled
  · have hsome := hedit i hi doc hdoc
    rw [hnone] at hsome
    exact absurd hsome Bool.false_ne_true

/-- A run that raises loads nothing. -/
theorem Ends.not_loads {run : ℕ → Load E} (h : Ends run .raised) (edit : ℕ → D → Option E) (data : List D)
    (stop : ℤ) : ¬ Loads run edit data stop := by
  rintro ⟨genDocs, hreturned, -⟩
  exact nomatch h.unique hreturned

theorem exists_succ_of_le {k fuel : ℕ} (h : k + 1 ≤ fuel) : ∃ m, fuel = m + 1 ∧ k ≤ m :=
  ⟨fuel - 1, by omega, by omega⟩

section Rereading

variable (read : S → Option (List D)) {edit : ℕ → D → Option E} {stop : ℤ} {file : S} {data : List D}

/-- Each round gets at least one document further, since there is one. -/
theorem rereading_ended (download : Option S) (hread : read file = some data) (hne : data ≠ []) {k : ℕ} (rounds : ℕ)
    (hle : ((rounds * data.length : ℕ) : ℤ) ≤ stop) (hk : (stop - (rounds * data.length : ℕ)).toNat < k)
    {genDocs : Dict ℕ E} (h : FilledTo edit data (rounds * data.length) genDocs) :
    ∃ out, (∀ fuel, k ≤ fuel →
      rereading read edit stop download fuel (some file) (rounds * data.length) genDocs = out) ∧
      Ended edit data stop out := by
  induction k generalizing rounds genDocs with
  | zero => omega
  | succ k ih =>
      have hpos := List.length_pos_of_ne_nil hne
      have hround : Filled edit data stop rounds (fill edit stop data (rounds * data.length) genDocs) :=
        fill_filled (List.nil_append data).symm hle h
      rcases hfill : fill edit stop data (rounds * data.length) genDocs with _ | ⟨genDocs', count, done⟩
      · rw [hfill] at hround
        rcases hround with ⟨i, hi, doc, hdoc, hedit⟩
        refine ⟨.raised, fun fuel hfuel => ?_, .raised i hi doc hdoc hedit⟩
        obtain ⟨m, rfl, -⟩ := exists_succ_of_le hfuel
        rw [rereading, hread, Option.bind_some, hfill]
      · rw [hfill] at hround
        rcases hround with _ | ⟨_, _, hcount, -, hfilled⟩ | ⟨_, hle', hfilled⟩
        · refine ⟨.returned genDocs', fun fuel hfuel => ?_, .returned genDocs' ?_⟩
          · obtain ⟨m, rfl, -⟩ := exists_succ_of_le hfuel
            rw [rereading, hread, Option.bind_some, hfill]
          · rw [← hcount]
            exact hfilled
        · have hlt : (stop - ((rounds + 1) * data.length : ℕ)).toNat < k := by
            rw [Nat.succ_mul] at hle' ⊢
            omega
          obtain ⟨out, hrest, hended⟩ := ih (rounds + 1) hle' hlt hfilled
          refine ⟨out, fun fuel hfuel => ?_, hended⟩
          obtain ⟨m, rfl, hm⟩ := exists_succ_of_le hfuel
          rw [rereading, hread, Option.bind_some, hfill]
          exact hrest m hm

/-- A loader that opens the file in each round fails only at a document whose edits raise. -/
theorem rereading_loads_iff (hstop : 0 ≤ stop) (hread : read file = some data) (hne : data ≠ []) {source : Source S}
    (hsource : source.contents = some file) :
    Loads (fun fuel => rereading read edit stop source.download fuel source.file 0 ∅) edit data stop
      ↔ Editable edit data stop := by
  have hempty : FilledTo edit data (0 * data.length) ∅ := filledTo_empty edit data
  have hle : ((0 * data.length : ℕ) : ℤ) ≤ stop := by rw [Nat.zero_mul, Nat.cast_zero]; exact hstop
  have hfuel : (stop - (0 * data.length : ℕ)).toNat < stop.toNat + 1 := by rw [Nat.zero_mul]; omega
  obtain ⟨out, hrun, hended⟩ := rereading_ended read source.download hread hne 0 hle hfuel hempty
  rw [Nat.zero_mul] at hrun
  refine hended.loads_iff ?_
  obtain ⟨_ | there, download⟩ := source
  · have hdownload : download = some file := hsource
    refine ⟨stop.toNat + 2, fun fuel hfuel => ?_⟩
    obtain ⟨m, rfl, hm⟩ := exists_succ_of_le hfuel
    rw [hdownload] at hrun ⊢
    exact hrun m hm
  · have hthere : there = file := Option.some.inj hsource
    rw [hthere]
    exact ⟨stop.toNat + 1, hrun⟩

end Rereading

/-! ## The loaders -/

section Geo

variable (sc : Scalars α) (str : Json α → Text)

/-- What `custom_read_from_dump` asks of a document. -/
def HasId (doc : Json α) : Prop := ∃ items, doc = .dict items ∧ (Assoc.find "id".toList items).isSome

theorem isSome_bind_iff {β γ : Type} {o : Option β} {f : β → Option γ} :
    (o.bind f).isSome ↔ ∃ b, o = some b ∧ (f b).isSome := by
  rw [Option.isSome_bind, Option.any_eq_true]

theorem customEdit_isSome_iff (doc : Json α) : (customEdit str doc).isSome ↔ HasId doc := by
  rcases doc with a | s | xs | items
  · simp [customEdit, HasId]
  · simp [customEdit, HasId]
  · simp [customEdit, HasId]
  · refine isSome_bind_iff.trans ⟨?_, ?_⟩
    · rintro ⟨id, hid, -⟩
      exact ⟨items, rfl, Option.isSome_of_eq_some hid⟩
    · rintro ⟨_, ⟨⟩, hsome⟩
      obtain ⟨id, hid⟩ := Option.isSome_iff_exists.1 hsome
      exact ⟨id, hid, rfl⟩

/-- What `read_from_dump` asks of a document; of the place only when the random bit is set. -/
def IsEarthquake (bit : Bool) (doc : Json α) : Prop :=
  ∃ items, doc = .dict items ∧ (Assoc.find "Eqid".toList items).isSome ∧ (Assoc.find "Version".toList items).isSome ∧
    (bit = true → ∃ geo, Assoc.find "geo".toList items = some (.dict geo) ∧
      (Assoc.find "lon".toList geo).isSome ∧ (Assoc.find "lat".toList geo).isSome)

theorem geoEdit_isSome_iff (bit : Bool) (items : List (Text × Json α)) :
    (geoEdit bit items).isSome ↔ (bit = true → ∃ geo, Assoc.find "geo".toList items = some (.dict geo) ∧
      (Assoc.find "lon".toList geo).isSome ∧ (Assoc.find "lat".toList geo).isSome) := by
  rcases bit with _ | _
  · exact ⟨fun _ h => absurd h Bool.false_ne_true, fun _ => rfl⟩
  rw [geoEdit, if_pos rfl, forall_prop_of_true rfl]
  split
  · next geo hgeo =>
      refine isSome_bind_iff.trans ⟨?_, ?_⟩
      · rintro ⟨lon, hlon, hrest⟩
        obtain ⟨lat, hlat, -⟩ := isSome_bind_iff.1 hrest
        exact ⟨geo, hgeo, Option.isSome_of_eq_some hlon, Option.isSome_of_eq_some hlat⟩
      · rintro ⟨geo', hgeo', hlon, hlat⟩
        rw [hgeo] at hgeo'
        rcases hgeo' with ⟨⟩
        obtain ⟨lon, hlon⟩ := Option.isSome_iff_exists.1 hlon
        obtain ⟨lat, hlat⟩ := Option.isSome_iff_exists.1 hlat
        exact ⟨lon, hlon, isSome_bind_iff.2 ⟨lat, hlat, rfl⟩⟩
  · next hnot =>
      refine ⟨fun h => absurd h Bool.false_ne_true, ?_⟩
      rintro ⟨geo, hgeo, -⟩
      exact absurd hgeo (hnot geo)

/-- The place is replaced and nothing else. -/
theorem find_geoEdit {bit : Bool} {items items' : List (Text × Json α)} (h : geoEdit bit items = some items')
    {key : Text} (hkey : key ≠ "geo".toList) : Assoc.find key items' = Assoc.find key items := by
  rcases bit with _ | _
  · rw [← Option.some.inj h]
  rw [geoEdit, if_pos rfl] at h
  split at h
  · next geo _ =>
      obtain ⟨lon, -, h⟩ := Option.bind_eq_some_iff.1 h
      obtain ⟨lat, -, h⟩ := Option.bind_eq_some_iff.1 h
      rw [← Option.some.inj h, Assoc.find_store, if_neg hkey]
  · cases h

theorem dumpEdit_isSome_iff (bit : Bool) (doc : Json α) : (dumpEdit sc str bit doc).isSome ↔ IsEarthquake bit doc := by
  rcases doc with a | s | xs | items
  · simp [dumpEdit, IsEarthquake]
  · simp [dumpEdit, IsEarthquake]
  · simp [dumpEdit, IsEarthquake]
  have hversion : ∀ (items' : List (Text × Json α)) (eqid : Json α),
      Assoc.find "Version".toList (Assoc.store "Eqid".toList (.str (str eqid)) items')
        = Assoc.find "Version".toList items' := fun items' eqid => by rw [Assoc.find_store, if_neg (by decide)]
  refine isSome_bind_iff.trans ⟨?_, ?_⟩
  · rintro ⟨items', hitems, hrest⟩
    obtain ⟨eqid, heqid, hrest⟩ := isSome_bind_iff.1 hrest
    obtain ⟨version, hfind, -⟩ := isSome_bind_iff.1 hrest
    rw [hversion, find_geoEdit hitems (by decide)] at hfind
    rw [find_geoEdit hitems (by decide)] at heqid
    exact ⟨items, rfl, Option.isSome_of_eq_some heqid, Option.isSome_of_eq_some hfind,
      (geoEdit_isSome_iff bit items).1 (Option.isSome_of_eq_some hitems)⟩
  · rintro ⟨_, ⟨⟩, heqid, hfind, hgeo⟩
    obtain ⟨items', hitems⟩ := Option.isSome_iff_exists.1 ((geoEdit_isSome_iff bit items).2 hgeo)
    obtain ⟨eqid, heqid⟩ := Option.isSome_iff_exists.1 heqid
    obtain ⟨version, hfind⟩ := Option.isSome_iff_exists.1 hfind
    refine ⟨items', hitems, isSome_bind_iff.2 ⟨eqid, ?_, isSome_bind_iff.2 ⟨version, ?_, rfl⟩⟩⟩
    · rw [find_geoEdit hitems (by decide), heqid]
    · rw [hversion, find_geoEdit hitems (by decide), hfind]

/-- The second round of `read_from_dump` finds nothing to read. -/
theorem dumpRounds_nil (bits : ℕ → Bool) (stop : ℤ) (n count : ℕ) (genDocs : Dict ℕ (Json α)) :
    dumpRounds sc str bits stop (n + 1) [] count genDocs = .raised := rfl

theorem readFromDump_succ (bits : ℕ → Bool) (stop : ℤ) {text : Text} {data : List (Json α)}
    (hread : loads sc text = some (.list data)) (n : ℕ) :
    readFromDump sc str bits (some text) stop (n + 1)
      = match fill (fun i => dumpEdit sc str (bits i)) stop data 0 ∅ with
        | none => .raised
        | some (genDocs, _, true) => .returned genDocs
        | some (genDocs, count, false) => dumpRounds sc str bits stop n [] count genDocs := by
  rw [readFromDump, dumpRounds, hread]
  rfl

/-- `read_from_dump` fails at a document whose edits raise, and where the data set ends before `end`. -/
theorem readFromDump_loads_iff (bits : ℕ → Bool) {stop : ℤ} (hstop : 0 ≤ stop) {text : Text} {data : List (Json α)}
    (hread : loads sc text = some (.list data)) :
    Loads (readFromDump sc str bits (some text) stop) (fun i => dumpEdit sc str (bits i)) data stop
      ↔ stop < data.length ∧ Editable (fun i => dumpEdit sc str (bits i)) data stop := by
  have hle : ((0 * data.length : ℕ) : ℤ) ≤ stop := by rw [Nat.zero_mul, Nat.cast_zero]; exact hstop
  have hround : Filled (fun i => dumpEdit sc str (bits i)) data stop 0
      (fill (fun i => dumpEdit sc str (bits i)) stop data (0 * data.length) ∅) :=
    fill_filled (List.nil_append data).symm hle (filledTo_empty _ data)
  have hstep := readFromDump_succ sc str bits stop hread
  rw [Nat.zero_mul] at hround
  rcases hfill : fill (fun i => dumpEdit sc str (bits i)) stop data 0 ∅ with _ | ⟨genDocs, count, done⟩
  · rw [hfill] at hround hstep
    rcases hround with ⟨i, hi, doc, hdoc, hedit⟩
    have hends : Ends (readFromDump sc str bits (some text) stop) .raised := by
      refine ⟨1, fun fuel hfuel => ?_⟩
      obtain ⟨m, rfl, -⟩ := exists_succ_of_le hfuel
      exact hstep m
    refine ⟨fun h => absurd h (hends.not_loads _ _ _), ?_⟩
    rintro ⟨-, h⟩
    have hsome : (dumpEdit sc str (bits i) doc).isSome := h i hi doc hdoc
    rw [hedit] at hsome
    exact absurd hsome Bool.false_ne_true
  · rw [hfill] at hround hstep
    rcases hround with _ | ⟨_, _, hcount, hlt, hfilled⟩ | ⟨_, hle, -⟩
    · have hends : Ends (readFromDump sc str bits (some text) stop) (.returned genDocs) := by
        refine ⟨1, fun fuel hfuel => ?_⟩
        obtain ⟨m, rfl, -⟩ := exists_succ_of_le hfuel
        exact hstep m
      have hfilled' : FilledTo (fun i => dumpEdit sc str (bits i)) data (stop.toNat + 1) genDocs := by
        rw [← hcount]
        exact hfilled
      have hloads := loads_of_filledTo hends hfilled'
      exact ⟨fun h => ⟨by omega, h.editable⟩, fun _ => hloads⟩
    · have hends : Ends (readFromDump sc str bits (some text) stop) .raised := by
        refine ⟨2, fun fuel hfuel => ?_⟩
        obtain ⟨m, rfl, hm⟩ := exists_succ_of_le hfuel
        obtain ⟨m, rfl, -⟩ := exists_succ_of_le hm
        rw [hstep]
        exact dumpRounds_nil ..
      exact ⟨fun h => absurd h (hends.not_loads _ _ _), fun h => absurd h.1 (by omega)⟩

/-- **What the loaders load**: those that open the file in each round load every data set that their edits go through.
    `read_from_dump` loads a data set only up to its end. -/
theorem loaders_load_iff (bits : ℕ → Bool) {stop : ℤ} (hstop : 0 ≤ stop) {lines : List L} (hlines : lines ≠ [])
    {source : Source (List L)} (hsource : source.contents = some lines) {data : List (Json α)} (hdata : data ≠ [])
    {text : Text} (hread : loads sc text = some (.list data)) {texts : Source Text}
    (htexts : texts.contents = some text) :
    Loads (readFromWikiDump source stop) (fun _ doc => some doc) lines stop ∧
    Loads (readFromNapaDump source stop) (fun _ doc => some doc) lines stop ∧
    (Loads (customReadFromDump sc str texts stop) (fun _ => customEdit str) data stop ↔
      ∀ i : ℕ, (i : ℤ) ≤ stop → ∀ doc, data[i % data.length]? = some doc → HasId doc) ∧
    (Loads (readFromDump sc str bits (some text) stop) (fun i => dumpEdit sc str (bits i)) data stop ↔
      stop < data.length ∧
        ∀ i : ℕ, (i : ℤ) ≤ stop → ∀ doc, data[i % data.length]? = some doc → IsEarthquake (bits i) doc) := by
  have hunedited : Loads (readFromWikiDump source stop) (fun _ doc => some doc) lines stop :=
    (rereading_loads_iff some hstop rfl hlines hsource).2 fun _ _ _ _ => rfl
  have helements : (loads sc text).bind elements = some data := by
    rw [hread]
    rfl
  refine ⟨hunedited, hunedited, ?_, ?_⟩
  · refine (rereading_loads_iff (fun file => (loads sc file).bind elements) hstop helements hdata htexts).trans ?_
    simp only [Editable, customEdit_isSome_iff]
  · refine (readFromDump_loads_iff sc str bits hstop hread).trans ?_
    simp only [Editable, dumpEdit_isSome_iff]

end Geo

/-- Numbers as numbers, words and fractions as zero. -/
def plainScalars : Scalars ℤ := ⟨0, fun _ => 0, id, fun _ => 0⟩

/-- A data set of one earthquake that has an `id` as well. -/
def oneQuake : Text :=
  "[\x7b\"id\":1,\"geo\":\x7b\"lat\":64,\"lon\":-148\x7d,\"Eqid\":7,\"Version\":1\x7d]".toList

def quakes : List (Json ℤ) :=
  [.dict [("id".toList, .scalar 1), ("geo".toList, .dict [("lat".toList, .scalar 64), ("lon".toList, .scalar (-148))]),
    ("Eqid".toList, .scalar 7), ("Version".toList, .scalar 1)]]

theorem loads_oneQuake : loads plainScalars oneQuake = some (.list quakes) := rfl

theorem loaders_load_oneQuake :
    Loads (customReadFromDump plainScalars (fun _ => "1".toList) ⟨none, some oneQuake⟩ 3)
      (fun _ => customEdit fun _ => "1".toList) quakes 3 := by
  have hlines : [()] ≠ [] := List.cons_ne_nil () []
  have hsource : (⟨some [()], none⟩ : Source (List Unit)).contents = some [()] := rfl
  have hdata : quakes ≠ [] := List.cons_ne_nil _ _
  have htexts : (⟨none, some oneQuake⟩ : Source Text).contents = some oneQuake := rfl
  refine (loaders_load_iff plainScalars (fun _ => "1".toList) (fun _ => true) (by decide) hlines hsource hdata
    loads_oneQuake htexts).2.2.1.2 ?_
  intro i _ doc hdoc
  have hlength : quakes.length = 1 := rfl
  rw [hlength, Nat.mod_one] at hdoc
  exact ⟨_, (Option.some.inj hdoc).symm, rfl⟩

/-- With a document more than there are the second round reads the end of the file. -/
theorem readFromDump_past_end :
    ¬ ∀ (bits : ℕ → Bool) (text : Text) (data : List (Json ℤ)) (stop : ℤ), 0 ≤ stop → data ≠ [] →
      loads plainScalars text = some (.list data) → (∀ doc ∈ data, IsEarthquake true doc) →
      Loads (readFromDump plainScalars (fun _ => "1".toList) bits (some text) stop)
        (fun i => dumpEdit plainScalars (fun _ => "1".toList) (bits i)) data stop := by
  intro h
  have hquakes : ∀ doc ∈ quakes, IsEarthquake true doc := by
    intro doc hdoc
    rw [List.mem_singleton.1 hdoc]
    exact ⟨_, rfl, rfl, rfl, fun _ => ⟨_, rfl, rfl, rfl⟩⟩
  obtain ⟨genDocs, ⟨enough, hrun⟩, -⟩ :=
    h (fun _ => false) oneQuake quakes 1 (by decide) (List.cons_ne_nil _ _) loads_oneQuake hquakes
  have hreturned := hrun (enough + 2) (Nat.le_add_right ..)
  rw [readFromDump, dumpRounds, loads_oneQuake] at hreturned
  cases hreturned

end TestInfra.Loaders
