import TestInfra.Lib.Dict
import TestInfra.Lib.Percent
import TestInfra.Lib.SplitOn
import Mathlib.Data.List.Nodup

set_option autoImplicit false

/-! # Job parameters

`update_url_with_job_params` puts the parameters of the option `job_params` into the URL that launches a job. It
reads both into one dictionary, where a parameter of the URL is its value, and one of `job_params` is a whole
segment, `name=value`, in the encoding of a form. Written back, the first parameter always gets its name in front, and
each other one unless its name is there already. -/

namespace TestInfra.JobParams

open PyText Percent

/-! ## The script -/

/-- `rparam_name` and `rparam_value`. -/
def readSegment (paramKey : Text) : Text × Text :=
  -- `param_key.find('=', 1)` passes over the first character
  match paramKey.tail.findIdx? (· = '=') with
  -- `param_key[0:-1]`: the last character is lost
  | none => (paramKey.dropLast, [])
  | some i => (paramKey.take (i + 1), paramKey.drop (i + 2))

/-- The loop over the segments of the URL. -/
def readUrl (url : Text) : Dict Text Text :=
  (url.splitOn '&').foldl (fun dict paramKey =>
    dict.set (readSegment paramKey).1 (readSegment paramKey).2) ∅

/-- The loop over the segments of `job_params`. -/
def readJobParams (jobParams : Text) (dict : Dict Text Text) : Dict Text Text :=
  (jobParams.splitOn '&').foldl (fun dict paramKey =>
    dict.set (readSegment paramKey).1 (urlencode (readSegment paramKey).1 (readSegment paramKey).2)) dict

/-- The body of the loop over the dictionary. -/
def addParam (newurl : Text) (entry : Text × Text) : Text :=
  if newurl = [] then entry.1 ++ '=' :: entry.2
  else if (entry.1 ++ ['=']).isPrefixOf entry.2 then newurl ++ '&' :: entry.2
  else newurl ++ '&' :: (entry.1 ++ '=' :: entry.2)

/-- `update_url_with_job_params`. -/
def updateUrlWithJobParams (url jobParams : Text) : Text :=
  (readJobParams jobParams (readUrl url)).items.foldl addParam []

/-! ## What it is to do -/

/-- The name and the value of a segment; without `=`, it is a name. -/
def param (segment : Text) : Text × Text := (segment.takeWhile (· ≠ '='), (segment.dropWhile (· ≠ '=')).tail)

/-- The parameters of a text. -/
def params (text : Text) : List (Text × Text) := (text.splitOn '&').map param

/-- The value that each name is to get: the last one. -/
def asked (jobParams : Text) : Dict Text Text := (params jobParams).foldl (fun dict p => dict.set p.1 p.2) ∅

/-- A launch URL: its parameters have names of their own. The first name has the address in it. -/
structure LaunchUrl where
  first : Text × Text
  others : List (Text × Text)
  nodup : ((first :: others).map Prod.fst).Nodup
  names : ∀ p ∈ first :: others, p.1 ≠ [] ∧ '=' ∉ p.1 ∧ '&' ∉ p.1
  values : ∀ p ∈ first :: others, '&' ∉ p.2

/-- `name=value`. -/
def segment (p : Text × Text) : Text := p.1 ++ '=' :: p.2

def LaunchUrl.params (url : LaunchUrl) : List (Text × Text) := url.first :: url.others

def LaunchUrl.text (url : LaunchUrl) : Text := join '&' (url.params.map segment)

/-- Every name is there once; those that are not overridden keep their values, and the others get the new ones. -/
structure Right (url : LaunchUrl) (jobParams newurl : Text) : Prop where
  once : ((params newurl).map Prod.fst).Nodup
  kept : (params newurl).filter (fun p => p.1 ∉ (asked jobParams).keys)
    = url.params.filter fun p => p.1 ∉ (asked jobParams).keys
  overridden : ∀ name value, (asked jobParams).get? name = some value → (name, quotePlus value) ∈ params newurl

/-! ## When it does -/

/-- The values as the script reads them. -/
def taken (jobParams : Text) : Dict Text Text :=
  ((jobParams.splitOn '&').map readSegment).foldl (fun dict p => dict.set p.1 p.2) ∅

/-- The parameter of this name is what it is to be. -/
def NameRight (url : LaunchUrl) (jobParams name : Text) : Prop :=
  match (taken jobParams).get? name, (asked jobParams).get? name with
  | some value, some value' => name ≠ url.first.1 ∧ quotePlus name = name ∧ value = value'
  -- a name with one more character was to be overridden
  | some value, none => Assoc.find name url.params
      = some (if name = url.first.1 ∨ quotePlus name ≠ name then urlencode name value else quotePlus value)
  -- a name with one character less was overridden
  | none, some value => Assoc.find name url.params = some (quotePlus value) ∨
      (name ≠ url.first.1 ∧ Assoc.find name url.params = some (segment (name, quotePlus value)))
  | none, none => ∀ value, (name, value) ∈ url.others → ¬ (name ++ ['=']).isPrefixOf value

/-- No segment begins with `=`, and the parameter of each name is what it is to be. -/
def ParamsRight (url : LaunchUrl) (jobParams : Text) : Prop :=
  (∀ paramKey ∈ jobParams.splitOn '&', paramKey.head? = some '=' → paramKey = ['=']) ∧
    ∀ name, NameRight url jobParams name

/-! ## Segments -/

section Segments

variable {name value paramKey : Text}

theorem ne_equals_of_not_mem (h : '=' ∉ name) : ∀ c ∈ name, decide (c ≠ '=') = true := by
  intro c hc
  rw [decide_eq_true_eq]
  rintro rfl
  exact h hc

/-- The name of a segment ends at the first `=`. -/
theorem param_segment (h : '=' ∉ name) (value : Text) : param (segment (name, value)) = (name, value) := by
  unfold param segment
  rw [List.takeWhile_append_of_pos (ne_equals_of_not_mem h), List.dropWhile_append_of_pos (ne_equals_of_not_mem h)]
  simp

/-- The name of a parameter is not empty, so the script finds its end. -/
theorem readSegment_segment (hne : name ≠ []) (h : '=' ∉ name) (value : Text) :
    readSegment (segment (name, value)) = (name, value) := by
  obtain ⟨c, rest, rfl⟩ := List.exists_cons_of_ne_nil hne
  rw [List.mem_cons, not_or] at h
  have hindex : (rest ++ '=' :: value).findIdx? (· = '=') = some rest.length := by
    rw [List.findIdx?_append, List.findIdx?_eq_none_iff.2 fun d hd => by simpa using ne_equals_of_not_mem h.2 d hd]
    simp [List.findIdx?_cons]
  unfold readSegment segment
  simp only [List.cons_append, List.tail_cons, hindex]
  simp

/-- A prefix that ends in the first `=` is the name. -/
theorem isPrefixOf_segment_iff {name' : Text} (h : '=' ∉ name) (h' : '=' ∉ name') (value : Text) :
    (name ++ ['=']).isPrefixOf (segment (name', value)) = true ↔ name = name' := by
  rw [List.isPrefixOf_iff_prefix]
  constructor
  · rintro ⟨rest, hrest⟩
    have hparam : param (segment (name, rest)) = param (segment (name', value)) := by
      rw [← hrest]
      unfold segment
      simp
    rw [param_segment h, param_segment h'] at hparam
    exact congrArg Prod.fst hparam
  · rintro rfl
    exact ⟨value, by simp [segment]⟩

/-- The names that the script reads are without `=`, except from a segment that begins with it. -/
theorem equals_mem_readSegment_iff :
    '=' ∈ (readSegment paramKey).1 ↔ paramKey.head? = some '=' ∧ paramKey ≠ ['='] := by
  rcases paramKey with _ | ⟨c, rest⟩
  · simp [readSegment]
  · unfold readSegment
    rw [List.tail_cons]
    split
    · next hnone =>
        have hrest : '=' ∉ rest := fun hmem => by simpa using List.findIdx?_eq_none_iff.1 hnone '=' hmem
        rcases List.eq_nil_or_concat' rest with rfl | ⟨init, last, rfl⟩
        · simp
        · have hinit : '=' ∉ init := fun h => hrest (List.mem_append_left _ h)
          rw [← List.cons_append, List.dropLast_concat, List.mem_cons, or_iff_left hinit]
          simp [@eq_comm _ c]
    · next i hi =>
        have hlt := List.findIdx?_eq_some_iff_getElem.1 hi
        obtain ⟨hlt, hequals, hbefore⟩ := hlt
        have htake : '=' ∉ rest.take i := by
          intro hmem
          obtain ⟨j, hj, heq⟩ := List.mem_take_iff_getElem.1 hmem
          have := hbefore j (by omega)
          simp [heq] at this
        have hne : rest ≠ [] := by
          rintro rfl
          simp at hlt
        simp [htake, hne, eq_comm]

end Segments

/-! ## The dictionary -/

section Stored

variable {url : LaunchUrl} {jobParams : Text}

/-- The dictionary when everything is read. -/
def stored (url : LaunchUrl) (jobParams : Text) : Dict Text Text := readJobParams jobParams (readUrl url.text)

theorem LaunchUrl.nodup_params (url : LaunchUrl) : (url.params.map Prod.fst).Nodup := url.nodup

theorem LaunchUrl.splitOn_text (url : LaunchUrl) : url.text.splitOn '&' = url.params.map segment := by
  refine List.splitOn_intercalate '&' ?_ (by simp [LaunchUrl.params])
  intro word hword
  obtain ⟨p, hp, rfl⟩ := List.mem_map.1 hword
  have hname := (url.names p hp).2.2
  have hvalue := url.values p hp
  simp [segment, hname, hvalue]

/-- The URL is read as it was written. -/
theorem items_readUrl (url : LaunchUrl) : (readUrl url.text).items = url.params := by
  have hread : ∀ p ∈ url.params, readSegment (segment p) = p :=
    fun p hp => readSegment_segment (url.names p hp).1 (url.names p hp).2.1 p.2
  have hfold : readUrl url.text = url.params.foldl (fun dict p => dict.set p.1 p.2) ∅ := by
    unfold readUrl
    rw [url.splitOn_text, List.foldl_map]
    exact List.foldl_ext _ _ _ fun dict p hp => by rw [hread p hp]
  rw [hfold, Dict.items_foldl_set url.nodup_params (by simp)]
  rfl

theorem readJobParams_eq (jobParams : Text) (dict : Dict Text Text) :
    readJobParams jobParams dict = (((jobParams.splitOn '&').map readSegment).map
      fun p => (p.1, urlencode p.1 p.2)).foldl (fun dict p => dict.set p.1 p.2) dict := by
  rw [List.foldl_map, List.foldl_map]
  rfl

/-- What is stored under a name. -/
theorem get?_stored (url : LaunchUrl) (jobParams name : Text) :
    (stored url jobParams).get? name
      = (((taken jobParams).get? name).map (urlencode name)).or (Assoc.find name url.params) := by
  have hurl : (readUrl url.text).get? name = Assoc.find name url.params := by
    rw [← items_readUrl]
    rfl
  rw [stored, readJobParams_eq, Dict.get?_foldl_set_or, hurl, List.foldl_map, Dict.get?_foldl_set_map urlencode]
  rfl

/-- The names of the URL come first. -/
theorem exists_keys_stored (url : LaunchUrl) (jobParams : Text) :
    ∃ extra, (stored url jobParams).keys = url.params.map Prod.fst ++ extra := by
  rw [← items_readUrl]
  exact Dict.exists_keys_foldl_set _ _ _ _

theorem exists_items_stored (url : LaunchUrl) (jobParams : Text) :
    ∃ text entries, (stored url jobParams).items = (url.first.1, text) :: entries := by
  obtain ⟨extra, hextra⟩ := exists_keys_stored url jobParams
  obtain ⟨⟨name, text⟩, entries, hitems⟩ := List.exists_cons_of_ne_nil (l := (stored url jobParams).items) (by
    intro hnil
    have hkeys : (stored url jobParams).keys = [] := by simpa [Dict.keys, Dict.items] using hnil
    simp [hkeys, LaunchUrl.params] at hextra)
  have hkeys : (stored url jobParams).keys = name :: entries.map Prod.fst := congrArg (List.map Prod.fst) hitems
  rw [hkeys, LaunchUrl.params, List.map_cons, List.cons_append, List.cons.injEq] at hextra
  exact ⟨text, entries, by rw [hitems, hextra.1]⟩

theorem mem_keys_taken_iff {name : Text} :
    name ∈ (taken jobParams).keys ↔ ∃ paramKey ∈ jobParams.splitOn '&', (readSegment paramKey).1 = name := by
  rw [taken, Dict.mem_keys_foldl_set]
  simp

theorem mem_keys_asked_iff {name : Text} :
    name ∈ (asked jobParams).keys ↔ ∃ paramKey ∈ jobParams.splitOn '&', (param paramKey).1 = name := by
  rw [asked, params, Dict.mem_keys_foldl_set]
  simp

theorem readSegment_fst_subset (paramKey : Text) : (readSegment paramKey).1 ⊆ paramKey := by
  unfold readSegment
  split
  · exact List.dropLast_subset paramKey
  · exact List.take_subset _ paramKey

/-- Names and values have no separator in them. -/
theorem no_separator_of_mem {entry : Text × Text} (h : entry ∈ (stored url jobParams).items) :
    '&' ∉ entry.1 ∧ '&' ∉ entry.2 := by
  obtain ⟨name, text⟩ := entry
  rw [← Dict.get?_eq_some_iff, get?_stored] at h
  rcases htaken : (taken jobParams).get? name with _ | value
  · rw [htaken, Option.map_none, Option.none_or, Assoc.find_eq_some_iff _ _ _ url.nodup_params] at h
    exact ⟨(url.names _ h).2.2, url.values _ h⟩
  · rw [htaken, Option.map_some, Option.some_or, Option.some.injEq] at h
    obtain ⟨paramKey, hparam, rfl⟩ := mem_keys_taken_iff.1 (Dict.mem_keys_of_get? htaken)
    refine ⟨fun hmem => SplitOn.not_mem_of_mem_splitOn hparam (readSegment_fst_subset _ hmem), ?_⟩
    have hform : ∀ text, '&' ∉ quotePlus text := not_mem_quotePlus (by decide)
    simp [← h, urlencode, hform]

end Stored

/-! ## The new URL -/

section Written

variable {url : LaunchUrl} {jobParams : Text}

/-- How a parameter is written that is not the first. -/
def written (entry : Text × Text) : Text := if (entry.1 ++ ['=']).isPrefixOf entry.2 then entry.2 else segment entry

theorem foldl_addParam {newurl : Text} (h : newurl ≠ []) (entries : List (Text × Text)) :
    entries.foldl addParam newurl = newurl ++ (entries.map written).flatMap fun word => '&' :: word := by
  induction entries generalizing newurl with
  | nil => simp
  | cons entry entries ih =>
      have hone : addParam newurl entry = newurl ++ '&' :: written entry := by
        unfold addParam written
        rw [if_neg h]
        split <;> rfl
      rw [List.foldl_cons, hone, ih (by simp), List.map_cons, List.flatMap_cons, List.append_assoc]

/-- The parameters of the new URL. -/
theorem params_updateUrl {text : Text} {entries : List (Text × Text)}
    (h : (stored url jobParams).items = (url.first.1, text) :: entries) :
    params (updateUrlWithJobParams url.text jobParams)
      = (url.first.1, text) :: entries.map fun entry => param (written entry) := by
  have hfirst := url.names url.first List.mem_cons_self
  have hupdate : updateUrlWithJobParams url.text jobParams
      = join '&' (segment (url.first.1, text) :: entries.map written) := by
    have hone : addParam [] (url.first.1, text) = segment (url.first.1, text) := if_pos rfl
    rw [updateUrlWithJobParams]
    change (stored url jobParams).items.foldl addParam [] = _
    rw [h, List.foldl_cons, hone, foldl_addParam (by simp [segment]), join_cons]
  have hsplit : (updateUrlWithJobParams url.text jobParams).splitOn '&'
      = segment (url.first.1, text) :: entries.map written := by
    rw [hupdate]
    refine List.splitOn_intercalate '&' ?_ (List.cons_ne_nil _ _)
    rw [List.forall_mem_cons]
    refine ⟨?_, fun word hword => ?_⟩
    · have hno := no_separator_of_mem (h ▸ List.mem_cons_self)
      simp only at hno
      simp [segment, hno]
    · obtain ⟨entry, hentry, rfl⟩ := List.mem_map.1 hword
      have hno := no_separator_of_mem (h ▸ List.mem_cons_of_mem _ hentry)
      unfold written
      split
      · exact hno.2
      · simp [segment, hno]
  rw [params, hsplit, List.map_cons, List.map_map, param_segment hfirst.2.1]
  rfl

/-- What is read as the value of a stored parameter. -/
def shown (url : LaunchUrl) (name text : Text) : Text :=
  if name ≠ url.first.1 ∧ (name ++ ['=']).isPrefixOf text then text.drop (name.length + 1) else text

/-- Where no name has a `=` in it, the parameters of the new URL have the names that are stored. -/
theorem params_updateUrl_eq (h : ∀ name ∈ (stored url jobParams).keys, '=' ∉ name) :
    params (updateUrlWithJobParams url.text jobParams)
      = (stored url jobParams).items.map fun entry => (entry.1, shown url entry.1 entry.2) := by
  obtain ⟨text, entries, hitems⟩ := exists_items_stored url jobParams
  have hnodup : ((stored url jobParams).items.map Prod.fst).Nodup := Dict.nodup_keys _
  have hkeys : ∀ entry ∈ (stored url jobParams).items, '=' ∉ entry.1 :=
    fun entry hentry => h _ (List.mem_map_of_mem hentry)
  rw [params_updateUrl hitems]
  rw [hitems] at hnodup hkeys ⊢
  rw [List.map_cons, List.nodup_cons] at hnodup
  rw [List.map_cons]
  refine congrArg₂ List.cons (by simp [shown]) (List.map_congr_left fun entry hentry => ?_)
  have hne : entry.1 ≠ url.first.1 := fun heq => hnodup.1 (heq ▸ List.mem_map_of_mem hentry)
  have hno := hkeys entry (List.mem_cons_of_mem _ hentry)
  unfold written shown
  simp only [hne, ne_eq, not_false_eq_true, true_and]
  split
  · next hpre =>
      obtain ⟨rest, hrest⟩ := List.isPrefixOf_iff_prefix.1 hpre
      have htext : entry.2 = segment (entry.1, rest) := by
        rw [← hrest]
        simp [segment]
      rw [htext, param_segment hno]
      simp [segment]
  · exact param_segment hno entry.2

end Written

/-! ## When the new URL is right -/

section Right

variable {url : LaunchUrl} {jobParams name : Text}

/-- The value that a name is to have. -/
def expected (url : LaunchUrl) (jobParams name : Text) : Option Text :=
  match (asked jobParams).get? name with
  | some value => some (quotePlus value)
  | none => Assoc.find name url.params

/-- When the names of the URL come first, all that matters is the value of each name. -/
theorem right_iff_find {newurl : Text} {extra : List Text} (hnodup : ((params newurl).map Prod.fst).Nodup)
    (hnames : (params newurl).map Prod.fst = url.params.map Prod.fst ++ extra) :
    Right url jobParams newurl ↔ ∀ name, Assoc.find name (params newurl) = expected url jobParams name := by
  have hfilter := Assoc.find_filter (ν := Text) fun name => decide (name ∉ (asked jobParams).keys)
  constructor
  · rintro ⟨-, hkept, hoverridden⟩ name
    unfold expected
    rcases hasked : (asked jobParams).get? name with _ | value
    · have hnot := (Dict.not_mem_keys_iff _ _).2 hasked
      have hnew := hfilter name (params newurl)
      have hold := hfilter name url.params
      rw [if_pos (by simpa using hnot)] at hnew hold
      rw [← hnew, hkept, hold]
    · exact (Assoc.find_eq_some_iff _ _ _ hnodup).2 (hoverridden name value hasked)
  · intro h
    refine ⟨hnodup, ?_, fun name value hasked => ?_⟩
    · have hextra : extra.filter (fun name => decide (name ∉ (asked jobParams).keys)) = [] := by
        refine List.filter_eq_nil_iff.2 fun name hname hnot => ?_
        have hfound : (Assoc.find name (params newurl)).isSome := by
          rw [Assoc.find_isSome_iff, hnames]
          exact List.mem_append_right _ hname
        rw [h, expected, (Dict.not_mem_keys_iff _ _).1 (by simpa using hnot), Assoc.find_isSome_iff] at hfound
        rw [hnames] at hnodup
        exact (List.nodup_append.1 hnodup).2.2 _ hfound _ hname rfl
      have hkeys : ∀ l : List (Text × Text), (l.filter fun p => decide (p.1 ∉ (asked jobParams).keys)).map Prod.fst
          = (l.map Prod.fst).filter fun name => decide (name ∉ (asked jobParams).keys) := by
        intro l
        rw [List.filter_map]
        rfl
      refine Assoc.ext_of_find ?_ ?_ fun name => ?_
      · rw [hkeys, hkeys, hnames, List.filter_append, hextra, List.append_nil]
      · rw [hkeys]
        exact hnodup.filter _
      · rw [hfilter, hfilter]
        split
        · next hnot =>
            rw [h, expected, (Dict.not_mem_keys_iff _ _).1 (by simpa using hnot)]
        · rfl
    · rw [← Assoc.find_eq_some_iff _ _ _ hnodup, h, expected, hasked]

theorem equals_not_mem_quotePlus (text : Text) : '=' ∉ quotePlus text := not_mem_quotePlus (by decide) text

theorem equals_mem_segment (p : Text × Text) : '=' ∈ segment p := by simp [segment]

theorem quotePlus_ne_segment (text : Text) (p : Text × Text) : quotePlus text ≠ segment p :=
  fun heq => equals_not_mem_quotePlus text (heq ▸ equals_mem_segment p)

/-- What is read as the value of a parameter that is overridden. -/
theorem shown_urlencode (url : LaunchUrl) (hname : '=' ∉ name) (value : Text) :
    shown url name (urlencode name value)
      = if name = url.first.1 ∨ quotePlus name ≠ name then urlencode name value else quotePlus value := by
  have hnamed : (name ++ ['=']).isPrefixOf (urlencode name value) = true ↔ name = quotePlus name :=
    isPrefixOf_segment_iff hname (equals_not_mem_quotePlus name) (quotePlus value)
  unfold shown
  simp only [hnamed]
  by_cases hfirst : name = url.first.1
  · simp [hfirst]
  · by_cases hquote : quotePlus name = name
    · simp [hfirst, hquote, urlencode]
    · simp [hfirst, hquote, Ne.symm hquote]

/-- What is read as the value of any other parameter can still be an encoded value. -/
theorem shown_eq_quotePlus_iff {text value : Text} :
    shown url name text = quotePlus value ↔
      text = quotePlus value ∨ (name ≠ url.first.1 ∧ text = segment (name, quotePlus value)) := by
  unfold shown
  split
  · next hcut =>
      obtain ⟨hfirst, hnamed⟩ := hcut
      obtain ⟨rest, rfl⟩ := List.isPrefixOf_iff_prefix.1 hnamed
      have htext : name ++ ['='] ++ rest = segment (name, rest) := by simp [segment]
      have hrest : (segment (name, rest)).drop (name.length + 1) = rest := by simp [segment]
      rw [htext, hrest, or_iff_right (Ne.symm (quotePlus_ne_segment _ _))]
      constructor
      · rintro rfl
        exact ⟨hfirst, rfl⟩
      · rintro ⟨-, heq⟩
        simpa [segment] using heq
  · next hcut =>
      refine (or_iff_left ?_).symm
      rintro ⟨hfirst, rfl⟩
      refine hcut ⟨hfirst, List.isPrefixOf_iff_prefix.2 ⟨quotePlus value, by simp [segment]⟩⟩

theorem shown_eq_self_iff {text : Text} :
    shown url name text = text ↔ ¬ (name ≠ url.first.1 ∧ (name ++ ['=']).isPrefixOf text) := by
  unfold shown
  split
  · next hcut =>
      obtain ⟨rest, rfl⟩ := List.isPrefixOf_iff_prefix.1 hcut.2
      refine iff_of_false (fun heq => ?_) (fun h => h hcut)
      have := congrArg List.length heq
      simp at this
      omega
  · next hcut => exact iff_of_true rfl hcut

/-- A parameter that is not overridden is read as it was, unless it is not the first and its value begins with its
    name. -/
theorem map_shown_eq_iff (url : LaunchUrl) (name : Text) :
    (Assoc.find name url.params).map (shown url name) = Assoc.find name url.params ↔
      ∀ value, (name, value) ∈ url.others → ¬ (name ++ ['=']).isPrefixOf value := by
  have hfind : ∀ value, Assoc.find name url.params = some value ↔ (name, value) ∈ url.params :=
    fun value => Assoc.find_eq_some_iff _ _ _ url.nodup_params
  have hfirst : ∀ value, (name, value) ∈ url.others → name ≠ url.first.1 := by
    intro value hmem heq
    have hnodup := url.nodup
    rw [List.map_cons, List.nodup_cons] at hnodup
    exact hnodup.1 (heq ▸ List.mem_map_of_mem hmem)
  rcases hvalue : Assoc.find name url.params with _ | value
  · refine iff_of_true rfl fun value hmem => ?_
    rw [(hfind value).2 (List.mem_cons_of_mem _ hmem)] at hvalue
    cases hvalue
  · simp only [Option.map_some, Option.some.injEq, shown_eq_self_iff, not_and]
    constructor
    · intro h value' hmem
      rw [(hfind value').2 (List.mem_cons_of_mem _ hmem), Option.some.injEq] at hvalue
      exact hvalue ▸ h (hfirst value' hmem)
    · intro h hne
      rcases List.mem_cons.1 ((hfind value).1 hvalue) with heq | hmem
      · exact absurd (congrArg Prod.fst heq) hne
      · exact h value hmem

/-- A name has the right value in the new URL exactly when it is right. -/
theorem nameRight_iff (hname : name ∈ (taken jobParams).keys → '=' ∉ name) :
    ((stored url jobParams).get? name).map (shown url name) = expected url jobParams name
      ↔ NameRight url jobParams name := by
  rw [get?_stored, expected, NameRight]
  rcases htaken : (taken jobParams).get? name with _ | value
  · rw [Option.map_none, Option.none_or]
    rcases (asked jobParams).get? name with _ | value'
    · exact map_shown_eq_iff url name
    · rcases Assoc.find name url.params with _ | text
      · simp
      · simp [shown_eq_quotePlus_iff]
  · rw [Option.map_some, Option.some_or, Option.map_some,
      shown_urlencode url (hname (Dict.mem_keys_of_get? htaken))]
    rcases (asked jobParams).get? name with _ | value'
    · exact eq_comm
    · have hne : urlencode name value ≠ quotePlus value' := Ne.symm (quotePlus_ne_segment _ (_, _))
      simp only [Option.some.injEq]
      by_cases hfirst : name = url.first.1
      · simp [hfirst, hfirst ▸ hne]
      · by_cases hquote : quotePlus name = name
        · simpa [hfirst, hquote] using ⟨quotePlus_injective, congrArg quotePlus⟩
        · simp [hfirst, hquote, hne]

/-- A segment that begins with `=` leaves a parameter without a name, whose value has a `=` in it. -/
theorem exists_nameless {paramKey : Text} (h : paramKey ∈ jobParams.splitOn '&') (hequals : paramKey.head? = some '=')
    (hne : paramKey ≠ ['=']) :
    ∃ value, ([], value) ∈ params (updateUrlWithJobParams url.text jobParams) ∧ '=' ∈ value := by
  obtain ⟨value, hvalue⟩ := Dict.mem_keys_iff_exists.1 (mem_keys_taken_iff.2 ⟨paramKey, h, rfl⟩)
  have hmem := equals_mem_readSegment_iff.2 ⟨hequals, hne⟩
  obtain ⟨rest, hrest⟩ : ∃ rest, (readSegment paramKey).1 = '=' :: rest := by
    obtain ⟨tail, rfl⟩ : ∃ tail, paramKey = '=' :: tail := by
      rcases paramKey with _ | ⟨c, tail⟩
      · cases hequals
      · exact ⟨tail, by rw [Option.some.inj hequals]⟩
    unfold readSegment at hmem ⊢
    split
    · obtain ⟨c, tail, rfl⟩ := List.exists_cons_of_ne_nil (fun hnil => hne (congrArg (List.cons '=') hnil))
      exact ⟨_, List.dropLast_cons_cons⟩
    · exact ⟨_, List.take_succ_cons⟩
  have hstored : ('=' :: rest, urlencode ('=' :: rest) value) ∈ (stored url jobParams).items := by
    rw [← Dict.get?_eq_some_iff, get?_stored, ← hrest, hvalue]
    rfl
  obtain ⟨text, entries, hitems⟩ := exists_items_stored url jobParams
  rw [hitems, List.mem_cons] at hstored
  have hentry := hstored.resolve_left fun heq =>
    (url.names url.first List.mem_cons_self).2.1 (congrArg Prod.fst heq ▸ List.mem_cons_self)
  -- an encoded parameter has one `=`, and the name with another one has two
  have hcount : (('=' :: rest) ++ ['=']).isPrefixOf (urlencode ('=' :: rest) value) = false := by
    rw [Bool.eq_false_iff]
    intro hnamed
    have hle := (List.isPrefixOf_iff_prefix.1 hnamed).sublist.count_le '='
    simp only [urlencode, List.cons_append, List.count_cons_self, List.count_append,
      List.count_eq_zero_of_not_mem (equals_not_mem_quotePlus _)] at hle
    simp at hle
  refine ⟨rest ++ '=' :: urlencode ('=' :: rest) value, ?_, by simp⟩
  rw [params_updateUrl hitems]
  refine List.mem_cons_of_mem _ (List.mem_map.2 ⟨_, hentry, ?_⟩)
  unfold written
  rw [hcount]
  simp [param, segment]

/-- Of a right URL, no segment of `job_params` begins with `=`: the name was to be overridden, and an encoded value has
    no `=`. -/
theorem begins_of_right (h : Right url jobParams (updateUrlWithJobParams url.text jobParams)) :
    ∀ paramKey ∈ jobParams.splitOn '&', paramKey.head? = some '=' → paramKey = ['='] := by
  intro paramKey hparam hequals
  by_contra hne
  obtain ⟨value, hvalue, hmem⟩ := @exists_nameless url _ _ hparam hequals hne
  have hasked : [] ∈ (asked jobParams).keys := by
    refine mem_keys_asked_iff.2 ⟨paramKey, hparam, ?_⟩
    rcases paramKey with _ | ⟨c, tail⟩
    · cases hequals
    · simp [param, Option.some.inj hequals]
  obtain ⟨value', hvalue'⟩ := Dict.mem_keys_iff_exists.1 hasked
  have hfound := h.overridden [] value' hvalue'
  rw [← Assoc.find_eq_some_iff _ _ _ h.once] at hvalue hfound
  rw [hvalue, Option.some.injEq] at hfound
  exact equals_not_mem_quotePlus value' (hfound ▸ hmem)

section Begins

variable (hbegin : ∀ paramKey ∈ jobParams.splitOn '&', paramKey.head? = some '=' → paramKey = ['='])

include hbegin

theorem equals_not_mem_taken : ∀ name ∈ (taken jobParams).keys, '=' ∉ name := by
  intro name hname hmem
  obtain ⟨paramKey, hparam, rfl⟩ := mem_keys_taken_iff.1 hname
  obtain ⟨hequals, hne⟩ := equals_mem_readSegment_iff.1 hmem
  exact hne (hbegin paramKey hparam hequals)

theorem equals_not_mem_stored : ∀ name ∈ (stored url jobParams).keys, '=' ∉ name := by
  intro name hname
  obtain ⟨text, htext⟩ := Dict.mem_keys_iff_exists.1 hname
  rw [get?_stored] at htext
  rcases htaken : (taken jobParams).get? name with _ | value
  · rw [htaken, Option.map_none, Option.none_or, Assoc.find_eq_some_iff _ _ _ url.nodup_params] at htext
    exact (url.names _ htext).2.1
  · exact equals_not_mem_taken hbegin name (Dict.mem_keys_of_get? htaken)

end Begins

/-- **Every name that `job_params` does not override keeps its value, the others get their new ones, and every name is
there once, exactly when** no segment of `job_params` begins with `=` and each name is right. -/
theorem updateUrlWithJobParams_right_iff (url : LaunchUrl) (jobParams : Text) :
    Right url jobParams (updateUrlWithJobParams url.text jobParams) ↔ ParamsRight url jobParams := by
  by_cases hbegin : ∀ paramKey ∈ jobParams.splitOn '&', paramKey.head? = some '=' → paramKey = ['=']
  · have hparams := params_updateUrl_eq (@equals_not_mem_stored url jobParams hbegin)
    have hnames : (params (updateUrlWithJobParams url.text jobParams)).map Prod.fst = (stored url jobParams).keys := by
      rw [hparams, List.map_map]
      rfl
    have hfind : ∀ name, Assoc.find name (params (updateUrlWithJobParams url.text jobParams))
        = ((stored url jobParams).get? name).map (shown url name) := by
      intro name
      rw [hparams]
      exact Assoc.find_map (shown url) name _
    obtain ⟨extra, hextra⟩ := exists_keys_stored url jobParams
    rw [right_iff_find (hnames ▸ Dict.nodup_keys _) (hnames.trans hextra), ParamsRight, and_iff_right hbegin]
    refine forall_congr' fun name => ?_
    rw [hfind]
    exact nameRight_iff (equals_not_mem_taken hbegin name)
  · exact iff_of_false (fun h => hbegin (begins_of_right h)) fun h => hbegin h.1

/-- `http://h/build?token=t&os=os=centos`. -/
def centosUrl : LaunchUrl where
  first := ("http://h/build?token".toList, "t".toList)
  others := [("os".toList, "os=centos".toList)]
  nodup := by decide
  names := by decide
  values := by decide

/-- A value that begins with its name loses it. -/
theorem updateUrlWithJobParams_os : ¬ ∀ (url : LaunchUrl) (jobParams : Text),
    Right url jobParams (updateUrlWithJobParams url.text jobParams) := by
  intro h
  have hkept := (h centosUrl "version=7.6".toList).kept
  revert hkept
  decide

end Right

end TestInfra.JobParams
