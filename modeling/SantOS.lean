import SantOS.Pmem.Allocator
import SantOS.Library.ByteMemory
import SantOS.Library.LinkedPaths
import SantOS.Library.Runs
import SantOS.Pmem.Exactness
import SantOS.Pmem.Sharing
import SantOS.Pmem.Placement
import SantOS.Boot.MemoryMap
import SantOS.Boot.KernelRange
import SantOS.Heap.Allocator
import SantOS.Heap.Layout
import SantOS.Heap.Operations
import SantOS.Heap.Release
import SantOS.Heap.Histories
import SantOS.Library.RadixTrees
import SantOS.Vmm.Paging
import SantOS.Vmm.Tables
import SantOS.Vmm.Mapping
import SantOS.Vmm.Translations
import SantOS.Fat12.Driver
import SantOS.Fat12.Table
import SantOS.Fat12.Volume
import SantOS.Fat12.RootEdit
import SantOS.Fat12.Scans
import SantOS.Fat12.Lookups
import SantOS.Fat12.Edits
import SantOS.Fat12.Files
import SantOS.Fat12.Writing
import SantOS.Fat12.Outcomes
import SantOS.Fat12.WellFormed
import SantOS.Fat12.Handles
import SantOS.Fat12.Histories
import SantOS.Fat12.Frames
import SantOS.Fat12.Faults
import SantOS.Fat12.Names
import SantOS.Fat12.RoundTrip
import SantOS.Keyboard.Handler
import SantOS.Keyboard.Interleavings
import SantOS.Library.FlatText
import SantOS.Sedit.Editor
import SantOS.Sedit.Buffers
import SantOS.Sedit.Keys
import SantOS.Sedit.Texts
import SantOS.Sedit.Viewport
import SantOS.Fat12.Stored
import SantOS.Sedit.Saves
import SantOS.Sedit.Opening
import SantOS.Library.ParallelArrays
import SantOS.Shell.Text
import SantOS.Shell.Variables
import SantOS.Shell.Commands
import SantOS.Shell.Dispatch
import SantOS.Shell.Blocks
import SantOS.Shell.Collector
import SantOS.Shell.Results
import SantOS.Shell.BlockRuns
import SantOS.Library.FiniteMaps
import SantOS.Shell.Store
import SantOS.Shell.Scripts
import SantOS.Fat12.Walks
import SantOS.Shell.Directories
import SantOS.Library.WrappedText
import SantOS.Vga.Screen
import SantOS.Vga.Wrapping
import SantOS.Fat12.Agreement
import SantOS.Fat12.Mounting
import SantOS.Loader.Programs
import SantOS.Fat12.Copies
import SantOS.Fat12.FreeClusters
import SantOS.Fat12.Listing
import SantOS.Fat12.PlainReads
import SantOS.Library.FueledLoops
import SantOS.Fat12.Endings
import SantOS.Fat12.CheckedDriver
import SantOS.Fat12.TableBounds
import SantOS.Fat12.ReadBounds
import SantOS.Fat12.EntryKinds
import SantOS.Heap.Requests
import SantOS.Heap.Sizes
import SantOS.Heap.Moves
import SantOS.Heap.Alignment
import SantOS.Heap.Stale
import SantOS.Pmem.Retries
import SantOS.Vmm.Ranges
import SantOS.Fat12.ListedEntries
import SantOS.Fat12.Replacement
import SantOS.Library.WrappedBytes
import SantOS.Loader.Segments
import SantOS.Boot.ProgramHeaders
import SantOS.Loader.ProgramMemory
import SantOS.Loader.TwoLoaders
import SantOS.Loader.CheckedProgram
import SantOS.Fdc.Driver
import SantOS.Fdc.Drive
import SantOS.Fdc.Transfers
import SantOS.Fdc.MotorState
import SantOS.Ata.Polling
import SantOS.Boot.KernelReads
import SantOS.Sasm.Assembler
import SantOS.Sasm.LineLoop
import SantOS.Sasm.Encoding
import SantOS.Shell.PipeSplits
import SantOS.Shell.QuotedValues
import SantOS.Library.Templates
import SantOS.Shell.Expanders
import SantOS.Shell.Indentation
import SantOS.Shell.IndentedLines
import SantOS.Library.Decimals
import SantOS.Shell.Numbers
import SantOS.Library.FormatStrings
import SantOS.Printf.Kernel
import SantOS.Printf.Conversions
import SantOS.Printf.UserSpace
import SantOS.Printf.Terminators
import SantOS.Printf.Integers
import SantOS.Library.LineEditors
import SantOS.Shell.LineEditing
import SantOS.Shell.TypedLines
import SantOS.Library.Slices
import SantOS.Shell.Pages
import SantOS.Vga.CursorPlaces
import SantOS.Shell.PageRows
import SantOS.Sedit.Loading
import SantOS.Fat12.HandleNames
import SantOS.Library.Buffers
import SantOS.Shell.Writes
import SantOS.Shell.WriteBounds
import SantOS.Shell.ConfinedRuns
import SantOS.Printf.Bounded
import SantOS.Fat12.ShortNames
import SantOS.Library.Words
import SantOS.Shell.Strtok
import SantOS.Keyboard.Modifiers
import SantOS.Shell.TermSteps
import SantOS.Shell.GuardedRuns
import SantOS.Shell.Terms
import SantOS.Fat12.Contents
import SantOS.Ata.Drive
import SantOS.Ata.Transfers
import SantOS.Fat32.Driver
import SantOS.Fat32.Sectors
import SantOS.Fat32.Reads
import SantOS.Fat32.Searches
import SantOS.Fat32.Listings
import SantOS.Fat16.Driver
import SantOS.Fat16.Root
import SantOS.Fat16.Reads
import SantOS.Boot.Detection
import SantOS.Boot.PageTables
import SantOS.Stdio.Echoes
import SantOS.Stdio.RoundTrip
import SantOS.Stdio.PrintedFields
