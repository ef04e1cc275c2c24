import RocketMQClient.Script.DownloadLib

namespace RocketMQClient.Script

open Library

def separates (platform : String) (c : Char) : Bool :=
  c = '/' || (platform = "win32" && c = '\\')

def withoutDrive (platform : String) : List Char → List Char
  | c :: ':' :: path => if platform = "win32" ∧ c.isAlpha then path else c :: ':' :: path
  | path => path

def basename (platform path : String) : String :=
  let chars := (withoutDrive platform path.toList).reverse.dropWhile (separates platform)
  String.ofList (chars.takeWhile fun c => !separates platform c).reverse

def libraries (platform : String) : List String :=
  if platform = "linux" then ["librocketmq.a"]
  else if platform = "win32" then ["rocketmq-client-cpp.lib"]
  else []

def copies (platform : String) : List String :=
  if platform = "win32" then ["rocketmq-client-cpp.dll"] else []

def opened (platform : String) : List String :=
  if platform = "darwin" then ["librocketmq.dylib"] else []

def needed (platform : String) : List String := libraries platform ++ copies platform ++ opened platform

/-- The files in `deps/lib` that are written to their end, which is that of the response: one
that is cut short ends its file as well. -/
def Download.files (platform : String) (s : Download) : List String :=
  (s.writes.filter Write.finished).map fun w => basename platform w.url

def Outcome.Fails (result : Except UrlError (List String)) : Outcome → Prop
  | .urlArray => ∀ urls, result ≠ .ok urls
  | .response (some status) => status ≠ 200
  | .readError _ | .writeError _ => True
  | _ => False

section Basename

variable {platform : String}

theorem withoutDrive_append (dir file : List Char) :
    ∃ rest, withoutDrive platform (dir ++ '/' :: file) = rest ++ '/' :: file := by
  unfold withoutDrive
  split
  · next c path hpath =>
    split_ifs with hdrive
    · obtain _ | ⟨a, _ | ⟨b, dir⟩⟩ := dir
      · obtain ⟨rfl, -⟩ := List.cons.inj hpath
        exact absurd hdrive.2 (by decide)
      · cases hpath
      · obtain ⟨-, htail⟩ := List.cons.inj hpath
        obtain ⟨-, rfl⟩ := List.cons.inj htail
        exact ⟨dir, rfl⟩
    · exact ⟨dir, hpath.symm⟩
  · exact ⟨dir, rfl⟩

theorem basename_append (dir : String) {path file : String} (hfile : path = "/" ++ file)
    (hne : file ≠ "") (h : file.toList.all (fun c => !separates platform c) = true) :
    basename platform (dir ++ path) = file := by
  obtain ⟨rest, hrest⟩ := @withoutDrive_append platform dir.toList file.toList
  have hpath : (dir ++ path).toList = dir.toList ++ '/' :: file.toList := by simp [hfile]
  have hreverse : ∀ c ∈ file.toList.reverse, separates platform c = false :=
    fun c hc => by simpa using List.all_eq_true.mp h c (List.mem_reverse.mp hc)
  have hdrop : (file.toList.reverse ++ '/' :: rest.reverse).dropWhile (separates platform) =
      file.toList.reverse ++ '/' :: rest.reverse := by
    cases hfile : file.toList.reverse with
    | nil => exact absurd (by simpa using hfile) hne
    | cons c cs =>
      rw [hfile] at hreverse
      exact List.dropWhile_cons_of_neg (by simp [hreverse c List.mem_cons_self])
  have htake : (file.toList.reverse ++ '/' :: rest.reverse).takeWhile
      (fun c => !separates platform c) = file.toList.reverse := by
    rw [List.takeWhile_append_of_pos fun c hc => by simp [hreverse c hc],
      List.takeWhile_cons_of_neg (by simp [separates]), List.append_nil]
  simp only [basename, hpath, hrest, List.reverse_append, List.reverse_cons, List.append_assoc,
    List.cons_append, List.nil_append, hdrop, htake, List.reverse_reverse, String.ofList_toList]

theorem basenames_of_urls {env : Option String} {os : Except String (String × Option String)}
    {urls : List String} (h : getUrlArray env platform os = .ok urls) :
    (urls.map (basename platform)).Nodup ∧
      ∀ f, f ∈ urls.map (basename platform) ↔ f ∈ needed platform := by
  unfold getUrlArray at h
  split_ifs at h with hwin hmac hlinux
  · cases h
    subst hwin
    have hdll : basename "win32" (urlRoot env ++ "/windows/" ++ cppSdkVersion ++
        "/rocketmq-client-cpp.dll") = "rocketmq-client-cpp.dll" :=
      basename_append _ (by decide) (by decide) (by decide)
    have hlib : basename "win32" (urlRoot env ++ "/windows/" ++ cppSdkVersion ++
        "/rocketmq-client-cpp.lib") = "rocketmq-client-cpp.lib" :=
      basename_append _ (by decide) (by decide) (by decide)
    simp [hdll, hlib, needed, libraries, copies, opened, or_comm]
  · cases h
    subst hmac
    have hdylib : basename "darwin" (urlRoot env ++ "/mac/" ++ cppSdkVersion ++
        "/librocketmq.dylib") = "librocketmq.dylib" :=
      basename_append _ (by decide) (by decide) (by decide)
    simp [hdylib, needed, libraries, copies, opened]
  · subst hlinux
    split at h <;> cases h
    next distro _ =>
      have hlib : basename "linux" (linuxUrl env distro.route) = "librocketmq.a" :=
        basename_append _ (by decide) (by decide) (by decide)
      simp [hlib, needed, libraries, copies, opened]

end Basename

section Exit

variable {result : Except UrlError (List String)} {es : List Outcome} {s t : Download} {e : Outcome}

def Outcome.Ends (result : Except UrlError (List String)) (e : Outcome) (t : Download) : Prop :=
  t.exit ∈ [none, some 0, some 4] ∧ (t.exit = some 4 ↔ e.Fails result)

theorem ends_of_goesOn (hexit : t.exit = none) (h : ¬e.Fails result) : e.Ends result t := by
  simp [Outcome.Ends, hexit, h]

theorem ends_of_fail (h : e.Fails result) : e.Ends result s.fail := by
  simp [Outcome.Ends, Download.fail, h]

theorem ends_of_step (h : (download result).step s e = some t) : e.Ends result t := by
  have hexit := (Download.step_cases h).1
  simp only [download, Download.step, hexit, if_true] at h
  cases e with
  | urlArray =>
    dsimp only at h
    split_ifs at h
    cases hresult : result with
    | ok urls =>
      rw [hresult] at h
      cases h
      exact ends_of_goesOn rfl fun hfails => hfails urls rfl
    | error err =>
      rw [hresult] at h
      cases h
      exact ends_of_fail fun urls hurls => by cases hurls
  | mkdirp created =>
    dsimp only at h
    split_ifs at h <;> cases h
    · exact ends_of_goesOn hexit id
    · exact ends_of_goesOn rfl id
  | response status =>
    dsimp only at h
    split_ifs at h
    cases status with
    | none =>
      cases h
      exact ends_of_goesOn rfl id
    | some status =>
      simp only [Download.respond] at h
      split at h
      · split_ifs at h with hstatus <;> cases h
        · exact ends_of_goesOn hexit fun hfails => hfails hstatus
        · exact ends_of_fail hstatus
      · cases h
  | readError i | writeError i =>
    simp only [Download.streamError] at h
    split at h <;> cases h
    exact ends_of_fail trivial
  | finish i =>
    dsimp only at h
    split at h <;> cases h
    simp only [Outcome.Ends, Download.finish, Outcome.Fails]
    split_ifs <;> simp
  | loopEmpty =>
    dsimp only at h
    split_ifs at h
    cases h
    simp [Outcome.Ends, Outcome.Fails]

structure Ended (result : Except UrlError (List String)) (es : List Outcome) (s : Download) : Prop where
  exit : s.exit ∈ [none, some 0, some 4]
  fails : s.exit = some 4 ↔ ∃ e ∈ es, e.Fails result
  urls : s.urls = [] ∨ result = .ok s.urls

theorem Ended.step (h : Ended result es s) (hst : (download result).step s e = some t) :
    Ended result (es ++ [e]) t where
  exit := (ends_of_step hst).1
  fails := by
    have hnone : ¬∃ e ∈ es, e.Fails result := by simp [← h.fails, (Download.step_cases hst).1]
    rw [(ends_of_step hst).2]
    constructor
    · exact fun hfails => ⟨e, by simp, hfails⟩
    · rintro ⟨d, hd, hfails⟩
      rcases List.mem_append.mp hd with hd | hd
      · exact absurd ⟨d, hd, hfails⟩ hnone
      · exact List.mem_singleton.mp hd ▸ hfails
  urls := by
    cases (Download.step_cases hst).2 with
    | urls _ hresult => exact .inr hresult
    | _ => exact h.urls

theorem Ended.init (result : Except UrlError (List String)) : Ended result [] {} where
  exit := by simp
  fails := by simp
  urls := .inl rfl

theorem ended_of_exec (h : (download result).exec {} es = some s) : Ended result es s :=
  Machine.exec_history (M := download result) (.init result) (fun _ _ _ _ hs hst => hs.step hst) h

theorem Download.mem_files {platform f : String} : f ∈ s.files platform ↔
    ∃ w ∈ s.writes, w.finished = true ∧ basename platform w.url = f := by
  simp [Download.files, and_assoc]

theorem Tracked.unrequested (h : Tracked es s) (hphase : s.phase = .rejected) :
    s.writes.length < s.urls.length := by
  have hholds := h.phase
  rw [hphase] at hholds
  exact hholds

theorem Tracked.urls_ne_nil (h : Tracked es s) (hexit : s.exit = some 0) : s.urls ≠ [] := by
  obtain hrejected | hwritten := h.succeeded hexit
  · exact List.ne_nil_of_length_pos (Nat.zero_lt_of_lt (h.unrequested hrejected))
  · exact hwritten.1

theorem Tracked.files_iff {platform : String} {env : Option String}
    {os : Except String (String × Option String)} (h : Tracked es s)
    (hurls : getUrlArray env platform os = .ok s.urls) (hexit : s.exit = some 0) :
    (∀ f ∈ needed platform, f ∈ s.files platform) ↔ s.phase ≠ .rejected := by
  obtain ⟨hnodup, hneeded⟩ := basenames_of_urls hurls
  constructor
  · intro hall hrejected
    have hlt := h.unrequested hrejected
    -- the file of a URL that was never requested is missing
    obtain ⟨url, hurl⟩ : ∃ url, url ∈ s.urls.drop s.writes.length :=
      List.exists_mem_of_ne_nil _ (by simpa using hlt)
    have hmem := (hneeded _).mp (List.mem_map_of_mem (List.mem_of_mem_drop hurl))
    obtain ⟨w, hw, -, hwf⟩ := Download.mem_files.mp (hall _ hmem)
    have hw : w.url ∈ s.urls.take s.writes.length := h.requested ▸ List.mem_map_of_mem hw
    rw [← List.take_append_drop s.writes.length s.urls, List.map_append] at hnodup
    exact (List.nodup_append.mp hnodup).2.2 _ (List.mem_map_of_mem hw) _ (List.mem_map_of_mem hurl) hwf
  · intro hphase f hf
    obtain ⟨-, hwrites, hall⟩ := (h.succeeded hexit).resolve_left hphase
    rw [← hneeded, ← hwrites, List.map_map, List.mem_map] at hf
    obtain ⟨w, hw, hwf⟩ := hf
    exact Download.mem_files.mpr ⟨w, hw, hall w hw, hwf⟩

/-- The script always comes to its end: with 4 exactly if something failed that it looks at,
and else with 0, and then all files that the build and the package look for have been written
exactly if the directory was created and no request was rejected. -/
theorem install_outcome {env : Option String} {platform : String}
    {os : Except String (String × Option String)}
    (h : (download (getUrlArray env platform os)).exec {} es = some s) :
    es.length ≤ 2 * s.urls.length + 4 ∧
      (s.exit = none → ∃ e t, (download (getUrlArray env platform os)).step s e = some t) ∧
      ∀ status, s.exit = some status →
        (status = 4 ∧ ∃ e ∈ es, e.Fails (getUrlArray env platform os)) ∨
          status = 0 ∧ (∀ e ∈ es, ¬e.Fails (getUrlArray env platform os)) ∧
            ((∀ f ∈ needed platform, f ∈ s.files platform) ↔
              .mkdirp false ∉ es ∧ .response none ∉ es) := by
  have ht := tracked_of_exec h
  have hended := ended_of_exec h
  refine ⟨exec_length_le h, exists_step _, fun status hexit => ?_⟩
  have hstatus : status = 0 ∨ status = 4 := by simpa [hexit] using hended.exit
  obtain rfl | rfl := hstatus
  · refine .inr ⟨rfl, fun e he hfails => ?_, ?_⟩
    · have hfour := hended.fails.mpr ⟨e, he, hfails⟩
      rw [hexit] at hfour
      cases hfour
    · have hurls := hended.urls.resolve_left (ht.urls_ne_nil hexit)
      rw [ht.files_iff hurls hexit, ne_eq, ht.rejected, not_or]
  · exact .inl ⟨rfl, hended.fails.mp hexit⟩

def halfDownloaded : List Outcome :=
  [.urlArray, .mkdirp true, .response (some 200), .response none, .finish 0, .loopEmpty]

theorem install_outcome_halfDownloaded :
    ∃ s, (download (getUrlArray none "win32" (.error "no os"))).exec {} halfDownloaded = some s ∧
      ¬∀ f ∈ needed "win32", f ∈ s.files "win32" := by
  refine ⟨_, rfl, fun hall => ?_⟩
  have houtcome := (@install_outcome halfDownloaded _ none "win32" (.error "no os") rfl).2.2 0 rfl
  obtain ⟨h, -⟩ | ⟨-, -, hiff⟩ := houtcome
  · cases h
  · exact (hiff.mp hall).2 (by decide)

end Exit

end RocketMQClient.Script
