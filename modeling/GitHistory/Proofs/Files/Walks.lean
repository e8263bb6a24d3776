import GitHistory.Proofs.Files.Absolute
import GitHistory.Proofs.Files.Directories

/-! Where a walk along a path arrives, and how many links it may still pass through there. A walk
that goes on from a directory does not depend on the way to it, except for the links left. -/
namespace GitHistory.FileTree

variable {tree before after : FileTree} {follow : Bool} {links left : Nat}
variable {directory place : Route} {part : String} {parts rest more : List String}

/-- A part that leads on: neither nothing nor a dot or two, and not too long. -/
structure IsStep (part : String) : Prop where
  proper : ¬(part = "" ∨ part = ".")
  down : part ≠ ".."
  short : Text.utf8Size part.toList ≤ nameLimit

theorem IsName.isStep (isName : IsName part) : IsStep part where
  proper := isName.proper
  down := isName.down
  short := isName.short

theorem IsStep.isName (isStep : IsStep part) : Files.isName part = true := by
  simpa [Files.isName] using isStep.proper

theorem IsName.isPart (isName : IsName part) : Files.IsPart part where
  leads := isName.isStep.isName
  solid := isName.solid

/-- A walk along parts arrives in a directory with some links left. -/
inductive Leads (tree : FileTree) : Nat → Route → List String → Nat → Route → Prop where
  | done {links : Nat} {directory : Route} : Leads tree links directory [] links directory
  | skip {links left : Nat} {directory place : Route} {part : String} {rest : List String}
      (idle : part = "" ∨ part = ".") (further : Leads tree links directory rest left place) :
      Leads tree links directory (part :: rest) left place
  | up {links left : Nat} {directory place : Route} {rest : List String}
      (further : Leads tree links directory.dropLast rest left place) :
      Leads tree links directory (".." :: rest) left place
  | down {links left : Nat} {directory place : Route} {part : String} {rest : List String}
      (isStep : IsStep part) (stands : tree.entry? (directory ++ [part]) = some .directory)
      (further : Leads tree links (directory ++ [part]) rest left place) :
      Leads tree links directory (part :: rest) left place
  | through {links left : Nat} {directory place : Route} {part target : String}
      {rest : List String} (isStep : IsStep part)
      (stands : tree.entry? (directory ++ [part]) = some (.link target))
      (further : Leads tree links (if Files.isAbsolute target then [] else directory)
        (Files.parts target ++ rest) left place) :
      Leads tree (links + 1) directory (part :: rest) left place

theorem walk_idle (idle : part = "" ∨ part = ".") (tree : FileTree) (follow : Bool) (links : Nat)
    (directory : Route) (rest : List String) :
    tree.walk follow links directory (part :: rest) = tree.walk follow links directory rest := by
  rw [walk, if_pos idle]

theorem walk_up (tree : FileTree) (follow : Bool) (links : Nat) (directory : Route)
    (rest : List String) :
    tree.walk follow links directory (".." :: rest) =
      tree.walk follow links directory.dropLast rest := by
  rw [walk, if_neg (by decide), if_pos rfl]

theorem IsStep.walk_cons (isStep : IsStep part) (tree : FileTree) (follow : Bool) (links : Nat)
    (directory : Route) (rest : List String) :
    tree.walk follow links directory (part :: rest) =
      match tree.entry? (directory ++ [part]) with
      | none => if rest.all (· == "") then .ok (.free directory part) else .error .notFound
      | some .directory => tree.walk follow links (directory ++ [part]) rest
      | some (.file content executable) =>
        if rest.isEmpty then .ok (.present (directory ++ [part]) (.file content executable))
        else .error .notADirectory
      | some (.link target) =>
        if rest.isEmpty && !follow then .ok (.present (directory ++ [part]) (.link target))
        else
          match links with
          | 0 => .error .tooManyLinks
          | links + 1 =>
            tree.walk follow links (if Files.isAbsolute target then [] else directory)
              (Files.parts target ++ rest) := by
  have short := Nat.not_lt_of_le isStep.short
  rw [walk, if_neg isStep.proper, if_neg isStep.down]
  cases tree.entry? (directory ++ [part]) with
  | none => exact if_neg short
  | some entry => cases entry <;> exact if_neg short

/-- From where it arrives a walk goes on as one that starts there. -/
theorem Leads.walk_append (leads : Leads tree links directory parts left place)
    (on : more ≠ [] ∨ follow = true) :
    tree.walk follow links directory (parts ++ more) = tree.walk follow left place more := by
  induction leads with
  | done => rfl
  | skip idle _ ih => rw [List.cons_append, walk_idle idle, ih]
  | up _ ih => rw [List.cons_append, walk_up, ih]
  | down isStep stands _ ih =>
    rw [List.cons_append, isStep.walk_cons, stands]
    exact ih
  | @through links left directory place part target rest isStep stands _ ih =>
    have goesOn : ((rest ++ more).isEmpty && !follow) = false := by
      rcases on with some | rfl
      · simp [some]
      · simp
    rw [List.cons_append, isStep.walk_cons, stands]
    simp only
    rw [goesOn, if_neg Bool.false_ne_true, ← List.append_assoc, ih]

theorem Leads.walk_eq (leads : Leads tree links directory parts left place) :
    tree.walk true links directory parts = .ok (.present place .directory) := by
  rw [← List.append_nil parts, leads.walk_append (.inr rfl), walk]

/-- A walk that ends at a directory leads there. -/
theorem exists_leads_of_walk
    (walked : tree.walk follow links directory parts = .ok (.present place .directory)) :
    ∃ left, Leads tree links directory parts left place := by
  fun_induction walk tree follow links directory parts with
  | case1 links directory =>
    cases walked
    exact ⟨links, .done⟩
  | case2 links directory part rest idle ih =>
    obtain ⟨left, further⟩ := ih walked
    exact ⟨left, .skip idle further⟩
  | case3 links directory rest _ ih =>
    obtain ⟨left, further⟩ := ih walked
    exact ⟨left, .up further⟩
  | case7 links directory part rest proper down long stands ih =>
    obtain ⟨left, further⟩ := ih walked
    exact ⟨left, .down ⟨proper, down, Nat.le_of_not_lt long⟩ stands further⟩
  | case12 directory part rest proper down long target stands _ links ih =>
    obtain ⟨left, further⟩ := ih walked
    exact ⟨left, .through ⟨proper, down, Nat.le_of_not_lt long⟩ stands further⟩
  | _ => cases walked

theorem Leads.trans {between : Route} {remaining : Nat}
    (leads : Leads tree links directory parts remaining between)
    (further : Leads tree remaining between more left place) :
    Leads tree links directory (parts ++ more) left place := by
  induction leads with
  | done => exact further
  | skip idle _ ih => exact .skip idle (ih further)
  | up _ ih => exact .up (ih further)
  | down isStep stands _ ih => exact .down isStep stands (ih further)
  | through isStep stands _ ih =>
    refine .through isStep stands ?_
    rw [List.append_eq, ← List.append_assoc]
    exact ih further

theorem Leads.mono
    (kept : ∀ route entry, before.entry? route = some entry → after.entry? route = some entry)
    (leads : Leads before links directory parts left place) :
    Leads after links directory parts left place := by
  induction leads with
  | done => exact .done
  | skip idle _ ih => exact .skip idle ih
  | up _ ih => exact .up ih
  | down isStep stands _ ih => exact .down isStep (kept _ _ stands) ih
  | through isStep stands _ ih => exact .through isStep (kept _ _ stands) ih

theorem Leads.le (leads : Leads tree links directory parts left place) : left ≤ links := by
  induction leads with
  | done => exact Nat.le_refl _
  | skip _ _ ih => exact ih
  | up _ ih => exact ih
  | down _ _ _ ih => exact ih
  | through _ _ _ ih => exact Nat.le_succ_of_le ih

/-- Parts that lead nowhere may stand anywhere. -/
theorem Leads.skipAll {ahead : List String} (idle : ∀ part ∈ ahead, Files.isName part = false)
    (further : Leads tree links directory rest left place) :
    Leads tree links directory (ahead ++ rest) left place := by
  induction ahead with
  | nil => exact further
  | cons part ahead ih =>
    have first := idle part List.mem_cons_self
    refine .skip (by simpa [Files.isName, or_iff_not_imp_left] using first) (ih ?_)
    exact fun other member => idle other (List.mem_cons_of_mem part member)

/-- Where the first part that leads on is, before it and after it. -/
theorem exists_of_filter_eq_cons (leadsOn : Files.isName part = true)
    (same : more.filter Files.isName = (part :: rest).filter Files.isName) :
    ∃ ahead behind, more = ahead ++ part :: behind ∧
      (∀ idle ∈ ahead, Files.isName idle = false) ∧
      behind.filter Files.isName = rest.filter Files.isName := by
  rw [List.filter_cons_of_pos leadsOn, List.filter_eq_cons_iff] at same
  obtain ⟨ahead, behind, rfl, idle, -, rest⟩ := same
  exact ⟨ahead, behind, rfl, by simpa using idle, rest⟩

/-- Parts that lead nowhere make no difference. -/
theorem Leads.of_filter_eq (leads : Leads tree links directory parts left place)
    (same : more.filter Files.isName = parts.filter Files.isName) :
    Leads tree links directory more left place := by
  induction leads generalizing more with
  | done =>
    have idle : ∀ part ∈ more, Files.isName part = false := by
      simpa [List.filter_eq_nil_iff] using same
    rw [← List.append_nil more]
    exact .skipAll idle .done
  | skip idle _ ih =>
    refine ih ?_
    rwa [List.filter_cons_of_neg (by rcases idle with rfl | rfl <;> decide)] at same
  | up _ ih =>
    obtain ⟨ahead, behind, rfl, idle, rest⟩ := exists_of_filter_eq_cons (by decide) same
    exact .skipAll idle (.up (ih rest))
  | down isStep stands _ ih =>
    obtain ⟨ahead, behind, rfl, idle, rest⟩ := exists_of_filter_eq_cons isStep.isName same
    exact .skipAll idle (.down isStep stands (ih rest))
  | through isStep stands _ ih =>
    obtain ⟨ahead, behind, rfl, idle, rest⟩ := exists_of_filter_eq_cons isStep.isName same
    refine .skipAll idle (.through isStep stands (ih ?_))
    rw [List.filter_append, List.filter_append, rest]

/-- What a walk finds free can be made a directory, and then the walk arrives there. -/
theorem exists_leads_insert {name : String}
    (free : tree.walk follow links directory parts = .ok (.free place name)) :
    ∃ left, Leads (tree.insert (place ++ [name]) .directory) links directory parts left
      (place ++ [name]) := by
  have nothing := walk_free free
  have kept : ∀ route entry, tree.entry? route = some entry →
      FileTree.entry? (tree.insert (place ++ [name]) .directory) route = some entry := by
    intro route entry stands
    rw [stands_insert_other, stands]
    rintro rfl
    cases stands.symm.trans nothing
  fun_induction walk tree follow links directory parts with
  | case2 links directory part rest idle ih =>
    obtain ⟨left, further⟩ := ih free
    exact ⟨left, .skip idle further⟩
  | case3 links directory rest _ ih =>
    obtain ⟨left, further⟩ := ih free
    exact ⟨left, .up further⟩
  | case5 links directory part rest proper down long _ ended =>
    obtain ⟨rfl, rfl⟩ := Place.free.inj (Except.ok.inj free)
    have idle : ∀ other ∈ rest, Files.isName other = false := by
      intro other member
      simp [Files.isName, beq_iff_eq.mp (List.all_eq_true.mp ended other member)]
    have stands : FileTree.entry? (tree.insert (directory ++ [part]) .directory)
        (directory ++ [part]) = some .directory := stands_insert_same (by simp)
    refine ⟨links, .down ⟨proper, down, Nat.le_of_not_lt long⟩ stands ?_⟩
    rw [← List.append_nil rest]
    exact .skipAll idle .done
  | case7 links directory part rest proper down long stands ih =>
    obtain ⟨left, further⟩ := ih free
    exact ⟨left, .down ⟨proper, down, Nat.le_of_not_lt long⟩ (kept _ _ stands) further⟩
  | case12 directory part rest proper down long target stands _ links ih =>
    obtain ⟨left, further⟩ := ih free
    exact ⟨left, .through ⟨proper, down, Nat.le_of_not_lt long⟩ (kept _ _ stands) further⟩
  | _ => cases free

/-- A walk along a name behind other parts arrives in a directory before it. -/
theorem exists_leads_of_concat {name : String} {found : Place} (isStep : IsStep name)
    (walked : tree.walk follow links directory (parts ++ [name]) = .ok found) :
    ∃ left place, Leads tree links directory parts left place ∧
      tree.walk follow left place [name] = .ok found := by
  -- the induction is on the walk to the directory
  fun_induction walk tree true links directory parts with
  | case1 links directory => exact ⟨links, directory, .done, walked⟩
  | case2 links directory part rest idle ih =>
    rw [List.cons_append, walk_idle idle] at walked
    obtain ⟨left, place, leads, ended⟩ := ih walked
    exact ⟨left, place, .skip idle leads, ended⟩
  | case3 links directory rest _ ih =>
    rw [List.cons_append, walk_up] at walked
    obtain ⟨left, place, leads, ended⟩ := ih walked
    exact ⟨left, place, .up leads, ended⟩
  | case4 links directory part rest proper down long =>
    rw [List.cons_append, walk, if_neg proper, if_neg down, if_pos long] at walked
    cases walked
  | case7 links directory part rest proper down long stands ih =>
    have step : IsStep part := ⟨proper, down, Nat.le_of_not_lt long⟩
    rw [List.cons_append, step.walk_cons, stands] at walked
    obtain ⟨left, place, leads, ended⟩ := ih walked
    exact ⟨left, place, .down step stands leads, ended⟩
  | case12 directory part rest proper down long target stands _ links ih =>
    have step : IsStep part := ⟨proper, down, Nat.le_of_not_lt long⟩
    rw [List.cons_append, step.walk_cons, stands] at walked
    simp only at walked
    rw [if_neg (by simp), ← List.append_assoc] at walked
    obtain ⟨left, place, leads, ended⟩ := ih walked
    exact ⟨left, place, .through step stands leads, ended⟩
  | case5 _ _ _ _ proper down long stands | case6 _ _ _ _ proper down long stands
  | case8 _ _ _ _ proper down long _ _ stands | case9 _ _ _ _ proper down long _ _ stands
  | case10 _ _ _ _ proper down long _ stands | case11 _ _ _ proper down long _ stands =>
    -- what stands there is nothing to go on from
    have step := IsStep.mk proper down (Nat.le_of_not_lt long)
    rw [List.cons_append, step.walk_cons, stands] at walked
    have name := isStep.proper
    simp_all

/-- With fewer links a walk ends as with more, or for want of links. -/
theorem walk_of_le {fewer : Nat} (le : fewer ≤ links) :
    tree.walk follow fewer directory parts = tree.walk follow links directory parts ∨
      tree.walk follow fewer directory parts = .error .tooManyLinks := by
  fun_induction walk tree follow fewer directory parts generalizing links with
  | case1 fewer directory => exact .inl (by rw [walk])
  | case2 fewer directory part rest idle ih =>
    rw [walk_idle idle]
    exact ih le
  | case3 fewer directory rest _ ih =>
    rw [walk_up]
    exact ih le
  | case4 fewer directory part rest proper down long =>
    exact .inl (by rw [walk, if_neg proper, if_neg down, if_pos long])
  | case7 fewer directory part rest proper down long stands ih =>
    rw [(IsStep.mk proper down (Nat.le_of_not_lt long)).walk_cons, stands]
    exact ih le
  | case11 => exact .inr rfl
  | case12 directory part rest proper down long target stands goesOn fewer ih =>
    cases links with
    | zero => cases le
    | succ links =>
      rw [(IsStep.mk proper down (Nat.le_of_not_lt long)).walk_cons, stands]
      simp only
      rw [if_neg goesOn]
      exact ih (Nat.le_of_succ_le_succ le)
  | case5 _ _ _ _ proper down long stands ended | case6 _ _ _ _ proper down long stands ended
  | case8 _ _ _ _ proper down long _ _ stands ended
  | case9 _ _ _ _ proper down long _ _ stands ended
  | case10 _ _ _ _ proper down long _ stands ended =>
    left
    rw [(IsStep.mk proper down (Nat.le_of_not_lt long)).walk_cons, stands]
    simp only [ended, if_true, if_false, Bool.false_eq_true]

/-! A link to its own directory can be passed as often as there are links left. -/

theorem leads_replicate (isStep : IsStep part)
    (stands : tree.entry? (directory ++ [part]) = some (.link ".")) (links count : Nat) :
    Leads tree (links + count) directory (List.replicate count part) links directory := by
  induction count with
  | zero => exact .done
  | succ count ih => exact .through isStep stands (.skip (.inr rfl) ih)

theorem walk_replicate_of_lt (isStep : IsStep part)
    (stands : tree.entry? (directory ++ [part]) = some (.link ".")) {count : Nat}
    (few : links < count) (rest : List String) :
    tree.walk true links directory (List.replicate count part ++ rest) =
      .error .tooManyLinks := by
  induction count generalizing links with
  | zero => cases few
  | succ count ih =>
    rw [List.replicate_succ, List.cons_append, isStep.walk_cons, stands]
    cases links with
    | zero => simp
    | succ links =>
      have back : Files.parts "." = ["."] := by decide
      have relative : Files.isAbsolute "." = false := by decide
      simp only [back, relative, List.singleton_append, walk_idle (.inr rfl)]
      simpa using ih (Nat.lt_of_succ_lt_succ few)

end GitHistory.FileTree
