import Rpki.Path
import Rpki.Proofs.Text.Split

/-!
# What a joined path means

`Path.join` works on texts, and what a path means is another matter: a name with a separator in it
is more than one component, `..` is one that leads out of the directory, and a name that starts at
the root leaves nothing of the directory.  `Path.IsNormal` is what has to be asked of a name so that
none of this happens, and `Path.parts_join` says that it is enough: the joined path is the directory
followed by the name, as one component more.

The components are those of Unix paths.  `Path.components` has their names; `Path.parts` also tells
where a path starts, and what `..` means from what a name means.
-/

set_option autoImplicit false

namespace Rpki

namespace Path

/-! ## Components -/

/-- A component of a path. -/
inductive Component
  /-- The root, where an absolute path starts. -/
  | root
  /-- The directory one is in, if a path starts with it. -/
  | current
  /-- The directory above. -/
  | parent
  /-- What has this name in a directory. -/
  | normal (name : String)
deriving DecidableEq

/-- What a name in a path stands for. -/
def Component.ofName (name : String) : Component := if name = ".." then .parent else .normal name

/-- Where a path starts, if it says so. -/
def start? (path : String) : Option Component :=
  if isAbsolute path then some .root
  else if (Text.split '/' path.toList).head? = some ['.'] then some .current
  else none

/-- The components of a path: where it starts, and what its names stand for. -/
def parts (path : String) : List Component :=
  (start? path).toList ++ (components path).map .ofName

/-- A name that is one component of a path, and no other than the name itself. -/
structure IsNormal (name : String) : Prop where
  notMem_separator : '/' ∉ name.toList
  ne_empty : name ≠ ""
  ne_current : name ≠ "."
  ne_parent : name ≠ ".."

namespace IsNormal

variable {name : String}

theorem toList_ne_nil (h : IsNormal name) : name.toList ≠ [] := fun hnil ↦
  h.ne_empty (String.toList_eq_nil_iff.mp hnil)

theorem toList_ne_current (h : IsNormal name) : name.toList ≠ ['.'] := fun hdot ↦
  h.ne_current (String.toList_injective hdot)

/-- Not a path that starts at the root. -/
theorem isAbsolute_eq_false (h : IsNormal name) : isAbsolute name = false := by
  rw [isAbsolute, beq_eq_false_iff_ne]
  exact fun hhead ↦ h.notMem_separator (List.mem_of_head? hhead)

/-- On its own the name is its one component. -/
theorem parts_eq (h : IsNormal name) : parts name = [.normal name] := by
  have hsplit : Text.split '/' name.toList = [name.toList] :=
    Text.split_of_notMem h.notMem_separator
  have hstart : start? name = none := by
    rw [start?, h.isAbsolute_eq_false, hsplit, if_neg Bool.false_ne_true, if_neg]
    exact fun hhead ↦ h.toList_ne_current (Option.some.inj hhead)
  have hcomponents : components name = [name] := by
    rw [components, hsplit,
      List.filter_cons_of_pos (by simp [h.toList_ne_nil, h.toList_ne_current])]
    simp
  rw [parts, hstart, hcomponents, List.map_singleton, Component.ofName, if_neg h.ne_parent]
  rfl

end IsNormal

/-! ## Joining -/

section

variable {directory name : String}

/-- A separator stands between the directory and the name, be it that of the directory. -/
theorem exists_front_of_join (hdirectory : directory ≠ "") (h : IsNormal name) :
    ∃ front, (join directory name).toList = front ++ '/' :: name.toList ∧
      (directory.toList = front ∨ directory.toList = front ++ ['/']) := by
  have hname : ¬ (name.toList.head? = some '/' ∨ directory = "") := by
    rintro (hhead | hempty)
    · exact h.notMem_separator (List.mem_of_head? hhead)
    · exact hdirectory hempty
  rw [join, if_neg hname]
  split
  · next hlast =>
    obtain ⟨front, hfront⟩ := List.getLast?_eq_some_iff.mp hlast
    refine ⟨front, ?_, .inr hfront⟩
    rw [String.toList_append, hfront, List.append_assoc]
    rfl
  · refine ⟨directory.toList, ?_, .inl rfl⟩
    rw [String.toList_append, String.toList_append, List.append_assoc]
    rfl

/-- A directory is as absolute as the paths in it. -/
theorem isAbsolute_join (h : IsNormal name) :
    isAbsolute (join directory name) = isAbsolute directory := by
  by_cases hdirectory : directory = ""
  · have hjoin : join directory name = name := if_pos (.inr hdirectory)
    rw [hjoin, h.isAbsolute_eq_false, hdirectory]
    rfl
  · obtain ⟨front, hjoin, hfront | hfront⟩ := exists_front_of_join hdirectory h
    · have hne : front ≠ [] := fun hnil ↦
        hdirectory (String.toList_eq_nil_iff.mp (hfront.trans hnil))
      rw [isAbsolute, isAbsolute, hjoin, hfront, List.head?_append_of_ne_nil _ hne]
    · rw [isAbsolute, isAbsolute, hjoin, hfront]
      cases front <;> rfl

/-- **A joined path is the directory and one component more**, which is the name. -/
theorem parts_join (h : IsNormal name) :
    parts (join directory name) = parts directory ++ [.normal name] := by
  by_cases hdirectory : directory = ""
  · have hjoin : join directory name = name := if_pos (.inr hdirectory)
    rw [hjoin, h.parts_eq, hdirectory]
    rfl
  · obtain ⟨front, hjoin, hfront⟩ := exists_front_of_join hdirectory h
    have hsplit : Text.split '/' (join directory name).toList =
        Text.split '/' front ++ [name.toList] := by
      rw [hjoin, Text.split_append_cons, Text.split_of_notMem h.notMem_separator]
    -- A separator at the end of the directory leaves an empty part, which means nothing.
    have hsplit' : Text.split '/' directory.toList = Text.split '/' front ∨
        Text.split '/' directory.toList = Text.split '/' front ++ [[]] := by
      rcases hfront with hfront | hfront
      · exact .inl (by rw [hfront])
      · refine .inr ?_
        rw [hfront, Text.split_append_cons]
        rfl
    have hne := Text.split_ne_nil '/' front
    have hstart : start? (join directory name) = start? directory := by
      have hhead : (Text.split '/' (join directory name).toList).head? =
          (Text.split '/' directory.toList).head? := by
        rw [hsplit, List.head?_append_of_ne_nil _ hne]
        rcases hsplit' with hsplit' | hsplit'
        · rw [hsplit']
        · rw [hsplit', List.head?_append_of_ne_nil _ hne]
      rw [start?, start?, isAbsolute_join h, hhead]
    have hcomponents : components (join directory name) = components directory ++ [name] := by
      rcases hsplit' with hsplit' | hsplit'
      · simp [components, hsplit, hsplit', h.toList_ne_nil, h.toList_ne_current]
      · simp [components, hsplit, hsplit', h.toList_ne_nil, h.toList_ne_current]
    rw [parts, parts, hstart, hcomponents, List.map_append, List.map_singleton, Component.ofName,
      if_neg h.ne_parent, List.append_assoc]

/-- The characters of a joined path are those of the directory and of the name, and a separator. -/
theorem mem_toList_join {c : Char} (hc : c ≠ '/') (h : IsNormal name) :
    c ∈ (join directory name).toList ↔ c ∈ directory.toList ∨ c ∈ name.toList := by
  by_cases hdirectory : directory = ""
  · have hjoin : join directory name = name := if_pos (.inr hdirectory)
    rw [hjoin, hdirectory]
    simp
  · obtain ⟨front, hjoin, hfront | hfront⟩ := exists_front_of_join hdirectory h
    · simp [hjoin, hfront, hc]
    · simp [hjoin, hfront, hc]

end

end Path

end Rpki
