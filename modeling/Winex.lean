import Winex.SpanList
import Winex.SpanMerge
import Winex.BandList
import Winex.BandSweep
import Winex.BandClip
import Winex.Crossings
import Winex.RegionModel
import Winex.RegionOp
import Winex.RegionCallbacks
import Winex.RegionSweep
import Winex.RegionHeap
import Winex.RegionCapacity
import Winex.RegionAlias
import Winex.RegionBox
import Winex.RegionCombine
import Winex.RegionCreate
import Winex.RegionBuild
import Winex.CombineRgn
import Winex.RegionEdit
import Winex.RegionCrop
import Winex.CropRefinement
import Winex.CropRgn
import Winex.PolygonModel
import Winex.Bresenham
import Winex.PolygonEdges
import Winex.ActiveEdges
import Winex.WindingTable
import Winex.ScanConversion
import Winex.ScanRows
import Winex.PolygonRegion
import Winex.PolyPolygonRgn
import Winex.PolygonRows
import Winex.PolygonBands
import Winex.PolygonCanonical
import Winex.RegionRun
import Winex.WordMask
import Winex.LinkedCells
import Winex.VirtualModel
import Winex.ViewList
import Winex.ViewPlacement
import Winex.VirtualApi
import Winex.PageRanges
import Winex.VirtualFailures
import Winex.VirtualWalk
import Winex.Interleaving
import Winex.CriticalSection
import Winex.SectionInvariant
import Winex.SectionSteps
import Winex.SectionRuns
import Winex.ResourceLock
import Winex.ResourceInvariant
import Winex.ResourceRuns
import Winex.Linearizability
import Winex.SListModel
import Winex.SListInvariant
import Winex.SListRuns
import Winex.LinkedRing
import Winex.HeapModel
import Winex.HeapLayout
import Winex.HeapGaps
import Winex.HeapFreeList
import Winex.HeapBlocks
import Winex.HeapOperations
import Winex.HeapGrowth
import Winex.HeapValidate
import Winex.HeapCalls
import Winex.HeapRuns
import Winex.ByteNumber
import Winex.DerLength
import Winex.Looping
import Winex.DerWalk
import Winex.DerInteger
import Winex.DecimalText
import Winex.DerOid
import Winex.ByteMemory
import Winex.DerSequence
import Winex.DerBits
import Winex.DerSet
import Winex.DerArray
import Winex.BerValues
import Winex.MixedRadix
import Winex.MsiView
import Winex.JoinView
import Winex.DistinctView
import Winex.DerTime
import Winex.Base64
import Winex.Base64RoundTrip
import Winex.MsiStrings
import Winex.MsiTable
import Winex.MsiInsert
import Winex.MsiReadBack
import Winex.MsiKeys
import Winex.MsiIndex
import Winex.MsiWhere
import Winex.StableOrder
import Winex.MsiSort
import Winex.X500Name
import Winex.X500RoundTrip
import Winex.DpaSearch
import Winex.DpaArray
import Winex.MsiStringPool
import Winex.MsiStorage
import Winex.MsiStatics
import Winex.StreamName
import Winex.InfText
import Winex.SafeArray
import Winex.PathCanonicalize
import Winex.PathMatch
import Winex.TimeFields
import Winex.UrlCacheBlocks
import Winex.UrlCacheValid
